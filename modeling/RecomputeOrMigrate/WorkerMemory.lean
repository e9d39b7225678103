-- What the workers keep for the requests of one engine: which calls leave the entries of a
-- request readable through its table, and what a call `step` adds to them.
import RecomputeOrMigrate.Deployment

open autoregression calls copies

namespace distserve

open kv_store

variable {κ : Type} {model : Model TokenId κ} {size : Nat}

/-- The calls that run the model or read the cache of other workers. -/
def RemoteCall.forwards : RemoteCall → Bool
  | .step .. => true
  | .migrate_blocks .. => true
  | _ => false

def RemoteCall.isStep : RemoteCall → Bool
  | .step .. => true
  | _ => false

/-- The calls that change no contents. -/
def RemoteCall.inert : RemoteCall → Bool
  | .step .. => false
  | .migrate_blocks .. => false
  | .swap_blocks .. => false
  | _ => true

namespace RemoteCall

theorem not_forwards_of_inert {c : RemoteCall} (h : c.inert = true) : c.forwards = false := by
  cases c <;> first | rfl | cases h

theorem not_isMigration_of_not_forwards {c : RemoteCall} (h : c.forwards = false) :
    c.isMigration = false := by
  cases c <;> first | rfl | cases h

theorem not_isStep_of_inert {c : RemoteCall} (h : c.inert = true) : c.isStep = false := by
  cases c <;> first | rfl | cases h

theorem foldl_run_call_of_inert {cs : List RemoteCall} (h : ∀ c ∈ cs, c.inert = true)
    (d : Devices (Nat → κ)) : cs.foldl run_call d = d := by
  induction cs with
  | nil => rfl
  | cons c cs ih =>
    have hc : run_call d c = d := by
      have := h c List.mem_cons_self
      cases c <;> first | rfl | cases this
    rw [List.foldl_cons, hc]
    exact ih fun c' hc' => h c' (List.mem_cons_of_mem _ hc')

end RemoteCall

/-! ## Workers that run calls -/

namespace Workers

variable {w : Workers κ} {c : RemoteCall} {cs : List RemoteCall}

/-- The workers after some calls that need no other workers. -/
def after (model : Model TokenId κ) (size : Nat) (w : Workers κ) (cs : List RemoteCall) :
    Workers κ := cs.foldl (run_call model size) w

theorem run_call_of_not_forwards (h : c.forwards = false) :
    w.run_call model size c = { w with memory := kv_store.run_call w.memory c } := by
  cases c <;> first | rfl | cases h

theorem after_of_not_forwards (h : ∀ c ∈ cs, c.forwards = false) :
    w.after model size cs = { w with memory := cs.foldl kv_store.run_call w.memory } := by
  unfold after
  induction cs generalizing w with
  | nil => rfl
  | cons c cs ih =>
    rw [List.foldl_cons, run_call_of_not_forwards (h c List.mem_cons_self),
      ih fun c' hc' => h c' (List.mem_cons_of_mem _ hc')]
    rfl

theorem run_call_of_inert (h : c.inert = true) : w.run_call model size c = w := by
  have hinert : ∀ c' ∈ [c], c'.inert = true := fun c' hc' => by rwa [List.mem_singleton.mp hc']
  have hmem := RemoteCall.foldl_run_call_of_inert hinert w.memory
  rw [List.foldl_cons, List.foldl_nil] at hmem
  rw [run_call_of_not_forwards (RemoteCall.not_forwards_of_inert h), hmem]

theorem results_of_isStep (h : c.isStep = true) :
    (w.run_call model size c).results.length = w.results.length + 1 := by
  cases c <;> first | (cases h; done) | exact List.length_append

/-- The number of the calls before does not matter. -/
theorem after_executed (n : Nat) : after model size { w with executed := n } cs =
    { w.after model size cs with executed := n } := by
  unfold after
  induction cs generalizing w with
  | nil => rfl
  | cons c cs ih =>
    have hc : run_call model size { w with executed := n } c =
        { w.run_call model size c with executed := n } := by cases c <;> rfl
    rw [List.foldl_cons, List.foldl_cons, hc, ih]

theorem run_call_take {ids : List TokenId} {results : List (List TokenId)}
    (h : w.results = ids :: results) (c : RemoteCall) :
    ∃ more, (w.run_call model size c).results = ids :: more ∧
      run_call model size { w with results } c =
        { w.run_call model size c with results := more } := by
  cases c with
  | step request_ids inputs firsts tables =>
    refine ⟨results ++ [(forward model size w.memory.gpu
      (sentRequests inputs firsts tables)).2], ?_, rfl⟩
    rw [← List.cons_append, ← h]
    rfl
  | _ => exact ⟨results, h, rfl⟩

/-- An engine may take a result before the calls or after them. -/
theorem after_take (model : Model TokenId κ) (size : Nat) {w : Workers κ} {ids : List TokenId}
    {results : List (List TokenId)} (h : w.results = ids :: results) (cs : List RemoteCall) :
    ∃ more, (w.after model size cs).results = ids :: more ∧
      after model size { w with results } cs = { w.after model size cs with results := more } := by
  unfold after
  induction cs generalizing w results with
  | nil => exact ⟨results, h, rfl⟩
  | cons c cs ih =>
    obtain ⟨more, hmore, hrun⟩ := run_call_take h c
    rw [List.foldl_cons, List.foldl_cons, hrun]
    exact ih hmore

theorem after_append (cs cs' : List RemoteCall) :
    w.after model size (cs ++ cs') = (w.after model size cs).after model size cs' :=
  List.foldl_append

end Workers

/-! ## What is stored for a request -/

namespace BlockManager

variable {m m' m'' : BlockManager} {d : Devices (Nat → κ)} {r : RequestId} {values : List κ}
  {gone gone' : List RequestId} {cs cs' : List RemoteCall} {t : List Nat}

/-- The request reads these values from its first position on, wherever its blocks are. -/
def Stores (size : Nat) (m : BlockManager) (d : Devices (Nat → κ)) (r : RequestId)
    (values : List κ) : Prop :=
  ∀ p (h : p < values.length),
    (KVStore.read ⟨m, d⟩ r (p / size)).map (· (p % size)) = some values[p]

theorem stores_nil : Stores size m d r ([] : List κ) := fun _ h => absurd h (Nat.not_lt_zero _)

theorem stores_iff_holds {l : BlockLocation} {t : List Nat} (ho : m.owned r = some (l, t)) :
    Stores size m d r values ↔ pages.Holds size (d.memory l) t values := by
  unfold Stores pages.Holds pages.cell KVStore.read
  simp only [ho, Option.bind_some, Option.map_map, Function.comp_def]

/-- The calls `cs` are those that the manager sent from `m` to `m'`. None of them runs the
model, and after them each request but those of `gone` reads what it read before. -/
structure Carries (κ : Type) (gone : List RequestId) (m m' : BlockManager)
    (cs : List RemoteCall) : Prop where
  calls : m'.remote_calls = m.remote_calls ++ cs
  quiet : ∀ c ∈ cs, c.forwards = false
  reads : ∀ (d : Devices (Nat → κ)) r, r ∉ gone → ∀ j v,
    KVStore.read ⟨m, d⟩ r j = some v → KVStore.read ⟨m', cs.foldl run_call d⟩ r j = some v

theorem Carries.refl (m : BlockManager) : Carries κ gone m m [] :=
  ⟨by simp, by simp, fun _ _ _ _ _ h => h⟩

theorem Carries.trans (h : Carries κ gone m m' cs) (h' : Carries κ gone' m' m'' cs') :
    Carries κ (gone ++ gone') m m'' (cs ++ cs') where
  calls := by rw [h'.calls, h.calls, List.append_assoc]
  quiet c hc := (List.mem_append.mp hc).elim (h.quiet c) (h'.quiet c)
  reads d r hr j v hv := by
    rw [List.mem_append, not_or] at hr
    rw [List.foldl_append]
    exact h'.reads _ r hr.2 j v (h.reads d r hr.1 j v hv)

theorem Carries.stores (h : Carries κ gone m m' cs) (hr : r ∉ gone)
    (hs : Stores size m d r values) : Stores size m' (cs.foldl run_call d) r values := by
  intro p hp
  obtain ⟨content, hread, hc⟩ := Option.map_eq_some_iff.mp (hs p hp)
  rw [h.reads d r hr _ _ hread, Option.map_some, hc]

/-- The owners outside `gone` keep their tables, and the calls change no contents. -/
theorem carries_of_owned (hcs : m'.remote_calls = m.remote_calls ++ cs)
    (hinert : ∀ c ∈ cs, c.inert = true) (ho : ∀ r ∉ gone, m'.owned r = m.owned r) :
    Carries κ gone m m' cs where
  calls := hcs
  quiet c hc := RemoteCall.not_forwards_of_inert (hinert c hc)
  reads d r hr j v hv := by
    rw [RemoteCall.foldl_run_call_of_inert hinert]
    unfold KVStore.read at hv ⊢
    rwa [ho r hr]

theorem IsWait.inert {c : RemoteCall} (h : IsWait c) : c.inert = true := by
  rcases h with rfl | rfl <;> rfl

theorem IsUpkeep.forwards {c : RemoteCall} (h : IsUpkeep c) : c.forwards = false := by
  rcases h with h | ⟨rs, src, tgt, b, rfl⟩
  · exact RemoteCall.not_forwards_of_inert h.inert
  · rfl

theorem carries_of_waits (hw : OnlyWaits m m') (ho : ∀ r ∉ gone, m'.owned r = m.owned r) :
    ∃ cs, Carries κ gone m m' cs := by
  obtain ⟨cs, hcs, hwait⟩ := hw
  exact ⟨cs, carries_of_owned hcs (fun c hc => (hwait c hc).inert) ho⟩

theorem carries_of_extends (h : Extends [] m m') : ∃ cs, Carries κ [] m m' cs := by
  obtain ⟨cs, hcs, hwait⟩ := h.waits
  refine ⟨cs, hcs, fun c hc => RemoteCall.not_forwards_of_inert (hwait c hc).inert,
    fun d r hr j v hv => ?_⟩
  have := h.read (k := ⟨m, d⟩) hr hv
  rwa [hcs, List.drop_left] at this

/-- More blocks for a batch. -/
theorem allocate_batched_carries {rs : List Request} (hp : Partitioned m)
    (h : allocate_blocks_batched rs m = .ok () m') : ∃ cs, Carries κ [] m m' cs :=
  carries_of_extends ((meets_forM_of_mem rs allocate_blocks fun request _ =>
    allocate_blocks_extends [] m request).of_ok (Extends.refl hp []) h)

/-- What a swap sends. -/
theorem swap_requests_upkeep {rs : List Request} {is_swap_in : Bool} (hs : SameKeys m)
    (h : swap_requests rs is_swap_in m = .ok () m') : OnlyCalls IsUpkeep m m' := by
  unfold swap_requests at h
  simp only [bind_apply] at h
  have hne : (if is_swap_in then BlockLocation.GPU else .CPU) ≠
      if is_swap_in then BlockLocation.CPU else .GPU := by cases is_swap_in <;> simp
  cases hm : swap_loop (if is_swap_in then .CPU else .GPU) (if is_swap_in then .GPU else .CPU)
      rs [] [] m with
  | error e m1 => rw [hm] at h; simp at h
  | ok p m1 =>
    rw [hm] at h
    simp only [modify_apply, EStateM.Result.ok.injEq, true_and] at h
    subst h
    obtain ⟨a, b, -, -, hswaps⟩ := swaps_of_swap_loop hne rs hs hm
    have hwaits : OnlyWaits m m1 := by
      clear hm
      induction hswaps with
      | nil => exact OnlyCalls.refl _ _
      | cons h1 _ ih => exact h1.waits.trans (ih h1.moves.sameKeys)
    exact (hwaits.imp fun _ => Or.inl).trans ⟨[_], rfl, fun c hc =>
      Or.inr ⟨rs, p.1, p.2, is_swap_in, List.mem_singleton.mp hc⟩⟩

/-- A swap moves what it swaps. -/
theorem swap_requests_carries {rs : List Request} {is_swap_in : Bool} (hp : Partitioned m)
    (h : swap_requests rs is_swap_in m = .ok () m') :
    Partitioned m' ∧ ∃ cs, Carries κ [] m m' cs := by
  obtain ⟨cs, hcs, hup⟩ := swap_requests_upkeep hp.same_keys h
  refine ⟨(swap_requests_read (k := ⟨m, ⟨fun _ => (), fun _ => ()⟩⟩) hp h).1, cs, hcs,
    fun c hc => (hup c hc).forwards, fun d r _ j v hv => ?_⟩
  have := (swap_requests_read (k := ⟨m, d⟩) hp h).2 r j
  rw [hcs, List.drop_left] at this
  rwa [this]

/-! ## What a call `step` adds -/

/-- A write through the table of one request on the GPU does not touch another one. -/
theorem Stores.of_written {q : RequestId} (hp : Partitioned m) (hq : m.owned q = some (.GPU, t))
    (hr : r ≠ q) {gpu : pages.Memory κ} (hgpu : ∀ b ∉ t, gpu b = d.gpu b)
    (h : Stores size m d r values) : Stores size m { d with gpu } r values := by
  cases ho : m.owned r with
  | none =>
    intro p hlt
    have := h p hlt
    simp [KVStore.read, ho] at this
  | some lt =>
    obtain ⟨l, u⟩ := lt
    rw [stores_iff_holds ho] at h ⊢
    cases l with
    | CPU => exact h
    | GPU =>
      refine h.congr fun b hb => hgpu b fun hc => ?_
      refine hp.held_disjoint .GPU hr (b := b) ?_ ?_
      · rwa [heldAt_self ho]
      · rwa [heldAt_self hq]

/-- A request that is ready for the workers: it has the blocks of its text on the GPU, and
the entries of the positions before the first new one are there. -/
structure Ready (model : Model TokenId κ) (size : Nat) (m : BlockManager)
    (d : Devices (Nat → κ)) (q : Request) : Prop where
  on_gpu : m.owned q.request_id = some (.GPU, m.tableOf q.request_id)
  room : q.text.length ≤ (m.tableOf q.request_id).length * size
  stores : Stores size m d q.request_id
    (model.entries (q.text.take q.get_first_new_token_index))

theorem first_new_le (q : Request) : q.get_first_new_token_index ≤ q.text.length := by
  have := q.sent_end
  rw [q.length_text]
  omega

/-- The model runs for one request. -/
theorem forward_one_stores (hsize : 0 < size) (hp : Partitioned m) {q : Request}
    (hq : Ready model size m d q) :
    (forward_one model size d.gpu (q.sentWith (m.tableOf q.request_id))).2 =
        model.next (model.entries q.text) ∧
      Stores size m { d with gpu := (forward_one model size d.gpu
        (q.sentWith (m.tableOf q.request_id))).1 } q.request_id (model.entries q.text) := by
  have hpast := hq.stores
  rw [stores_iff_holds hq.on_gpu] at hpast
  have hlen : (model.entries (q.text.take q.get_first_new_token_index)).length =
      q.get_first_new_token_index := by
    rw [model.length_entries, List.length_take, Nat.min_eq_left (first_new_le q)]
  have hread : pages.read size d.gpu (m.tableOf q.request_id) q.get_first_new_token_index =
      model.entries (q.text.take q.get_first_new_token_index) := by
    have := hpast.read
    rwa [hlen] at this
  have hall : model.extend (model.entries (q.text.take q.get_first_new_token_index))
      q.get_input_tokens_ids = model.entries q.text := by
    rw [← q.sent_tokens, ← model.entries_append, List.take_append_drop]
  have hnew : ((model.entries q.text).drop q.get_first_new_token_index).length =
      q.text.length - q.get_first_new_token_index := by
    rw [List.length_drop, model.length_entries]
  have hnd : (m.tableOf q.request_id).Nodup := by
    rw [← heldAt_self hq.on_gpu]
    exact hp.held_nodup .GPU _
  have hwrite := pages.holds_write hsize hnd hpast
    ((model.entries q.text).drop q.get_first_new_token_index) (by
      rw [hlen, hnew, Nat.add_sub_cancel' (first_new_le q)]
      exact hq.room)
  rw [hlen, model.entries_take_append _ (first_new_le q)] at hwrite
  unfold forward_one Request.sentWith
  dsimp only
  rw [hread, hall, hlen]
  exact ⟨rfl, (stores_iff_holds hq.on_gpu).mpr hwrite⟩

/-- The blocks outside the table keep what they have. -/
theorem forward_one_of_notMem {x : Sent} {gpu : pages.Memory κ} {b : Nat}
    (h : b ∉ x.block_table) : (forward_one model size gpu x).1 b = gpu b :=
  pages.write_of_notMem h _ _

theorem forward_of_notMem {xs : List Sent} {gpu : pages.Memory κ} {b : Nat}
    (h : ∀ x ∈ xs, b ∉ x.block_table) : (forward model size gpu xs).1 b = gpu b := by
  induction xs generalizing gpu with
  | nil => rfl
  | cons x xs ih =>
    simp only [forward]
    rw [ih fun x' hx' => h x' (List.mem_cons_of_mem _ hx'),
      forward_one_of_notMem (h x List.mem_cons_self)]

/-- The model runs for a batch: each request gets the token that follows its text, and all
entries of its text are stored. The other requests keep theirs. -/
theorem forward_stores (hsize : 0 < size) (hp : Partitioned m) (rs : List Request)
    (hnd : (rs.map (·.request_id)).Nodup) (hrs : ∀ q ∈ rs, Ready model size m d q) :
    (forward model size d.gpu (rs.map fun q => q.sentWith (m.tableOf q.request_id))).2 =
        rs.map (fun q => model.next (model.entries q.text)) ∧
      (∀ q ∈ rs, Stores size m { d with gpu := (forward model size d.gpu
        (rs.map fun q => q.sentWith (m.tableOf q.request_id))).1 } q.request_id
          (model.entries q.text)) ∧
      ∀ r ∉ rs.map (·.request_id), ∀ values : List κ, Stores size m d r values →
        Stores size m { d with gpu := (forward model size d.gpu
          (rs.map fun q => q.sentWith (m.tableOf q.request_id))).1 } r values := by
  induction rs generalizing d with
  | nil => exact ⟨rfl, by simp, fun r _ values h => h⟩
  | cons q rest ih =>
    rw [List.map_cons, List.nodup_cons] at hnd
    obtain ⟨htoken, hstores⟩ := forward_one_stores hsize hp (hrs q List.mem_cons_self)
    set gpu := (forward_one model size d.gpu (q.sentWith (m.tableOf q.request_id))).1 with hgpu
    have hothers : ∀ r ≠ q.request_id, ∀ values : List κ, Stores size m d r values →
        Stores size m { d with gpu } r values := fun r hr values h =>
      h.of_written hp (hrs q List.mem_cons_self).on_gpu hr fun b hb => forward_one_of_notMem hb
    obtain ⟨htokens, hin, hout⟩ := ih (d := { d with gpu }) hnd.2 fun q' hq' => by
      have h := hrs q' (List.mem_cons_of_mem _ hq')
      exact ⟨h.on_gpu, h.room, hothers _ (fun hc => hnd.1 (hc ▸ List.mem_map_of_mem hq')) _
        h.stores⟩
    simp only [List.map_cons, forward]
    refine ⟨by rw [htoken, htokens], ?_, ?_⟩
    · rw [List.forall_mem_cons]
      exact ⟨hout _ hnd.1 _ hstores, hin⟩
    · intro r hr values h
      rw [List.mem_cons, not_or] at hr
      exact hout r hr.2 values (hothers r hr.1 values h)

/-- The call `step` sends what each request of the batch has to send. -/
theorem sentRequests_stepCall (rs : List Request) :
    sentRequests (rs.map Request.get_input_tokens_ids) (rs.map Request.get_first_new_token_index)
      (rs.map fun q => m.tableOf q.request_id) =
        rs.map fun q => q.sentWith (m.tableOf q.request_id) := by
  unfold sentRequests
  rw [List.zip_map', List.zip_map', List.map_map]
  rfl

/-- The tokens that the model gives a batch. -/
def answersOf (model : Model TokenId κ) (rs : List Request) : List TokenId :=
  rs.map fun q => model.next (model.entries q.text)

/-- The workers run the call `step` for a batch. -/
theorem run_step_stores (model : Model TokenId κ) {w : Workers κ} (hsize : 0 < size)
    (hp : Partitioned m) {rs : List Request} (hnd : (rs.map (·.request_id)).Nodup)
    (hrs : ∀ q ∈ rs, Ready model size m w.memory q) :
    (w.run_call model size (m.stepCall rs)).results = w.results ++ [answersOf model rs] ∧
      (∀ q ∈ rs, Stores size m (w.run_call model size (m.stepCall rs)).memory q.request_id
        (model.entries q.text)) ∧
      ∀ r ∉ rs.map (·.request_id), ∀ values : List κ, Stores size m w.memory r values →
        Stores size m (w.run_call model size (m.stepCall rs)).memory r values := by
  obtain ⟨htokens, hin, hout⟩ := forward_stores hsize hp rs hnd hrs
  rw [← sentRequests_stepCall] at htokens hin hout
  exact ⟨congrArg (w.results ++ [·]) htokens, hin, hout⟩

/-- Only the tables and the locations matter. -/
theorem stores_congr (h : m'.owned = m.owned) :
    Stores size m' d r values ↔ Stores size m d r values := by
  unfold Stores KVStore.read
  rw [h]

theorem stepCall_congr {rs : List Request}
    (h : ∀ q ∈ rs, m'.tableOf q.request_id = m.tableOf q.request_id) :
    m'.stepCall rs = m.stepCall rs := by
  unfold stepCall
  rw [List.map_congr_left h]

end BlockManager

end distserve
