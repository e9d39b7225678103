-- The prompt lengths of the recovery decisions. `generate` writes the length under its
-- argument `request_id`, and `get_rom_decision` looks it up under the id of the request.
-- So it finds no length of a request that got its id from the counter.
import RecomputeOrMigrate.OutputStream
import RecomputeOrMigrate.RomDecision

open calls runs

namespace distserve

/-! ## What a decision finds -/

/-- A decision computes with the entry of the request, or with 0. -/
theorem get_rom_decision_prompt_len {rom_config : ROMConfig}
    {lengths : Option RequestId → Option Nat} {get_bandwidth : Except PyError ℚ} {r : RequestId}
    {override : Option ℚ} {d : RomDecision × Nat × WithTop ℚ × ℚ}
    (h : get_rom_decision rom_config lengths get_bandwidth r override = .ok d) :
    d.2.1 = (lengths (some r)).getD 0 := by
  unfold get_rom_decision at h
  dsimp only at h
  cases override <;>
  · obtain ⟨bw, -, h⟩ := bind_eq_ok.mp h
    obtain ⟨⟨decision, c_mig, c_recomp⟩, -, h⟩ := bind_eq_ok.mp h
    cases h
    rfl

/-- A table with one length. -/
def oneLength : ROMConfig := ⟨.rom, 10000, 32, 32, 128, 2, AList.singleton 0 0⟩

theorem decides_with_one_length (lengths : Option RequestId → Option Nat)
    (get_bandwidth : Except PyError ℚ) (r : RequestId) :
    ∃ d, get_rom_decision oneLength lengths get_bandwidth r (some 1) = .ok d := by
  have hcost : ∀ n : Nat, compute_c_recomp n oneLength.prefill_time_table = .ok 0 := by
    intro n
    unfold compute_c_recomp
    rw [if_neg (by decide)]
    by_cases h0 : (n : Int) ≤ 0
    · rw [if_pos h0]
      rfl
    · have hpos : (0 : Int) ≤ n := by omega
      rw [if_neg h0]
      have hinterpolate : interpolate [0] [0] n = .ok 0 := by
        unfold interpolate
        rw [ok_bind (x := item [0] 0) rfl, if_neg h0, ok_bind (x := item [0] (-1)) rfl,
          if_pos hpos]
        rfl
      exact hinterpolate
  have hdecides : ∃ d, make_decision ((lengths (some r)).getD 0) 1 oneLength = .ok d := by
    unfold make_decision
    rw [ok_bind (hcost _)]
    exact ⟨_, rfl⟩
  obtain ⟨⟨decision, c_mig, c_recomp⟩, hd⟩ := hdecides
  refine ⟨(decision, (lengths (some r)).getD 0, c_mig, c_recomp), ?_⟩
  change (make_decision ((lengths (some r)).getD 0) 1 oneLength >>= _) = _
  rw [ok_bind hd]
  rfl

/-- The decisions for this request find its prompt length: it has an explicit id and a
length of its prompt, or the prompt is empty and nothing is found. -/
def GenerateArgs.FindsLength (tokenizer : PromptTokenizer) (args : GenerateArgs) : Prop :=
  if args.request_id = none then args.prompt_ids tokenizer = some []
  else match args.prompt_len, args.prompt_token_ids, args.prompt with
    | some prompt_len, _, _ => (args.prompt_ids tokenizer).map List.length = some prompt_len
    | none, some _, _ => True
    | none, none, some prompt =>
      (tokenizer.tokenize prompt).length = (tokenizer.encode prompt).length
    | none, none, none => False

theorem GenerateArgs.findsLength_iff {tokenizer : PromptTokenizer} {args : GenerateArgs}
    {prompt_token_ids : List TokenId} (hp : args.prompt_ids tokenizer = some prompt_token_ids) :
    args.FindsLength tokenizer ↔
      (if args.request_id = none then 0 else args.prompt_len_value tokenizer) =
        prompt_token_ids.length := by
  obtain ⟨prompt, prompt_len, token_ids, params, request_id⟩ := args
  unfold GenerateArgs.FindsLength
  rw [hp]
  by_cases hr : request_id = none
  · simp only [hr, if_true, Option.some.injEq]
    rw [eq_comm (a := 0), List.length_eq_zero_iff]
  · simp only [hr, if_false]
    unfold GenerateArgs.prompt_ids at hp
    unfold GenerateArgs.prompt_len_value
    cases prompt_len with
    | some prompt_len => simp [eq_comm]
    | none =>
      cases token_ids with
      | some ids =>
        cases hp
        simp
      | none =>
        cases prompt with
        | some text =>
          cases hp
          simp
        | none => cases hp

namespace LLMEngine

/-! ## The calls that added a request -/

/-- A call of `generate` and the request that it added. -/
structure Generated where
  args : GenerateArgs
  req : Request

/-- The calls after an action that does not raise. -/
def noteCall (tokenizer : PromptTokenizer) (s : LLMEngine) (a : Action)
    (calls : List Generated) : List Generated :=
  match a with
  | .generate args =>
    match create_request tokenizer args s.request_counter with
    | .ok req _ => calls ++ [⟨args, req⟩]
    | .error _ _ => calls
  | _ => calls

/-- The engine with the calls of `generate` beside it. -/
def stepNoted (decode : Tokenizer) (tokenizer : PromptTokenizer) :
    Machine PyError (LLMEngine × List Generated) Action :=
  beside (step decode tokenizer) (noteCall tokenizer)

/-- An output told that the request is finished. -/
def Finished (s : LLMEngine) (r : RequestId) : Prop := ∃ o ∈ s.outputs r, o.is_finished = true

/-- Each decision for an unfinished request computes with the length of its prompt, and a
finished request has no entry. -/
structure OwnLengths (s : LLMEngine) : Prop where
  decisions : ∀ req ∈ s.engines.added, ¬ s.Finished req.request_id →
    ∀ rom_config get_bandwidth override d, get_rom_decision rom_config s.prompt_len_map
      get_bandwidth req.request_id override = .ok d → d.2.1 = req.prompt_token_ids.length
  removed : ∀ req ∈ s.engines.added, s.Finished req.request_id →
    s.prompt_len_map (some req.request_id) = none

variable {s s' : LLMEngine} {decode : Tokenizer} {tokenizer : PromptTokenizer} {cc : CacheConfig}
  {calls calls' : List Generated} {cs : List Callback}

/-- A request that is not finished did not return. -/
theorem Streams.finished_of_returned (hs : Streams decode cc s) {r : RequestId}
    (h : s.generators r = .returned) : s.Finished r := by
  have hf := hs.consumers.follows r
  rw [h] at hf
  obtain ⟨before, last, hy, hlast, -⟩ := hf
  refine ⟨last, ?_, hlast⟩
  unfold outputs
  rw [hy]
  simp

/-! ## The entries of the map -/

/-- The entry of a request is there when its call has an explicit id, until the generator
returns. -/
structure Entries (tokenizer : PromptTokenizer) (s : LLMEngine) (calls : List Generated) :
    Prop where
  added : calls.map (·.req) = s.engines.added
  prompts : ∀ call ∈ calls, call.args.prompt_ids tokenizer = some call.req.prompt_token_ids
  entry : ∀ call ∈ calls, s.prompt_len_map (some call.req.request_id) =
    if call.args.request_id = none ∨ s.generators call.req.request_id = .returned then none
    else some (call.args.prompt_len_value tokenizer)
  unknown : ∀ r ∉ s.ids, s.prompt_len_map (some r) = none

theorem Entries.mem_ids (h : Entries tokenizer s calls) {call : Generated} (hc : call ∈ calls) :
    call.req.request_id ∈ s.ids := by
  unfold ids
  rw [← h.added]
  exact List.mem_map_of_mem (List.mem_map_of_mem hc)

/-- What changes neither the map nor which generators returned. -/
theorem Entries.congr (h : Entries tokenizer s calls)
    (hadded : s'.engines.added = s.engines.added) (hmap : s'.prompt_len_map = s.prompt_len_map)
    (hreturned : ∀ r, s'.generators r = .returned ↔ s.generators r = .returned) :
    Entries tokenizer s' calls where
  added := h.added.trans hadded.symm
  prompts := h.prompts
  entry call hc := by
    rw [hmap, h.entry call hc]
    simp only [hreturned]
  unknown r hr := by
    rw [hmap]
    apply h.unknown
    rwa [ids, ← hadded]

theorem on_callback_prompt_len_map {c : Callback} (h : s.on_callback c = .ok s') :
    s'.prompt_len_map = s.prompt_len_map := by
  cases c with
  | engine_on_new_step_output r o =>
    simp only [on_callback, on_new_step_output_callback] at h
    split at h <;> cases h
    rfl
  | engine_on_new_lifetime_event r t d =>
    simp only [on_callback, on_new_lifetime_event_callback] at h
    split at h
    · cases h
    · split at h <;> cases h <;> rfl
  | clear_migrated_blocks mr =>
    cases h
    rfl

theorem callbacks_prompt_len_map (h : cs.foldlM on_callback s = .ok s') :
    s'.prompt_len_map = s.prompt_len_map := by
  induction cs generalizing s with
  | nil =>
    cases h
    rfl
  | cons c rest ih =>
    rw [List.foldlM_cons] at h
    obtain ⟨s1, h1, h⟩ := bind_eq_ok.mp h
    exact (ih h).trans (on_callback_prompt_len_map h1)

theorem start_request_prompt_len_map {args : GenerateArgs} {req : Request}
    (h : s.start_request tokenizer args req = .ok s') :
    s'.prompt_len_map = Function.update s.prompt_len_map args.request_id
      (some (args.prompt_len_value tokenizer)) := by
  rw [start_request_eq] at h
  cases h
  rfl

/-- `generate` writes its entry under the id that it was given. -/
theorem Entries.generate (h : Entries tokenizer s calls) (hs : Streams decode cc s)
    {args : GenerateArgs} {prompt_token_ids : List TokenId}
    (hp : args.prompt_ids tokenizer = some prompt_token_ids)
    (hx : step decode tokenizer s (.generate args) = some (.ok s')) :
    Entries tokenizer s' (noteCall tokenizer s (.generate args) calls) := by
  obtain ⟨s1, h1, -, hnew, hadded, hgenerators, -, -⟩ := generate_gives hs hp hx rfl
  cases h1
  have hmap : s'.prompt_len_map = Function.update s.prompt_len_map args.request_id
      (some (args.prompt_len_value tokenizer)) := by
    simp only [step, create_request_eq, hp] at hx
    split at hx
    · have hstart := start_request_prompt_len_map (Option.some.inj hx)
      exact hstart
    · cases hx
  have hnote : noteCall tokenizer s (.generate args) calls = calls ++ [⟨args,
      .create (args.request_id.getD s.request_counter) prompt_token_ids
        args.sampling_params⟩] := by
    simp only [noteCall, create_request_eq, hp]
  have hother : ∀ r, r ≠ args.request_id.getD s.request_counter →
      s'.prompt_len_map (some r) = s.prompt_len_map (some r) := by
    intro r hr
    rw [hmap]
    apply Function.update_of_ne
    intro hc
    apply hr
    rw [← hc]
    rfl
  rw [hnote]
  refine ⟨by rw [List.map_append, h.added, hadded]; rfl, ?_, ?_, ?_⟩
  · intro call hc
    rcases List.mem_append.mp hc with hc | hc
    · exact h.prompts call hc
    · obtain rfl := List.mem_singleton.mp hc
      exact hp
  · intro call hc
    rcases List.mem_append.mp hc with hc | hc
    · have hne : call.req.request_id ≠ args.request_id.getD s.request_counter := by
        intro heq
        exact hnew (heq ▸ h.mem_ids hc)
      rw [hother _ hne, h.entry call hc, hgenerators, Function.update_of_ne hne]
    · obtain rfl := List.mem_singleton.mp hc
      change s'.prompt_len_map (some (args.request_id.getD s.request_counter)) =
        if args.request_id = none ∨ s'.generators (args.request_id.getD s.request_counter) =
          .returned then none else some (args.prompt_len_value tokenizer)
      rw [hgenerators, Function.update_self, hmap]
      cases hr : args.request_id with
      | none =>
        rw [hr] at hnew
        rw [if_pos (Or.inl rfl), Function.update_of_ne (by simp)]
        exact h.unknown _ hnew
      | some r =>
        rw [if_neg (by simp)]
        exact Function.update_self ..
  · intro r hr
    unfold ids at hr
    rw [hadded, List.map_append, List.mem_append, not_or] at hr
    rw [hother r fun hc => hr.2 (by simp [hc, Request.create])]
    exact h.unknown r hr.1

/-- The generator that returns removes the entry of its request. -/
theorem Entries.resume (h : Entries tokenizer s calls) {r : RequestId} {o : StepOutput}
    (hg : s.generators r = .suspended o) (hx : s.resume r o = .ok s') :
    Entries tokenizer s' calls := by
  unfold LLMEngine.resume at hx
  split at hx
  · split at hx
    · cases hx
    · cases hx
      refine ⟨h.added, h.prompts, ?_, ?_⟩
      · intro call hc
        by_cases hr : call.req.request_id = r
        · subst hr
          simp
        · have hne : some call.req.request_id ≠ some r := fun hc => hr (Option.some.inj hc)
          simp only [Function.update_of_ne hne, Function.update_of_ne hr]
          exact h.entry call hc
      · intro r' hr'
        dsimp only
        by_cases hr : r' = r
        · rw [hr, Function.update_self]
        · rw [Function.update_of_ne fun hc => hr (Option.some.inj hc)]
          exact h.unknown r' hr'
  · cases hx
    refine h.congr ?_ ?_ fun r' => ?_ <;> try rfl
    by_cases hr : r' = r
    · subst hr
      simp [hg]
    · simp [Function.update_of_ne hr]

theorem Entries.get_output (h : Entries tokenizer s calls) (hs : Streams decode cc s)
    {r : RequestId} (hx : LLMEngine.step decode tokenizer s (.get_output r) = some (.ok s')) :
    Entries tokenizer s' calls := by
  obtain ⟨y, hy, hys⟩ := Option.map_eq_some_iff.mp hx
  obtain ⟨s1, o, rfl, hg, -, hc⟩ := get_output_gives hs hy
  obtain rfl : s1 = s' := Except.ok.inj hys
  have hwaiting : s.generators r = .waiting := by
    by_contra hc
    unfold LLMEngine.get_output at hy
    rw [if_neg hc] at hy
    cases hy
  have hmap : s1.prompt_len_map = s.prompt_len_map := by
    unfold LLMEngine.get_output at hy
    rw [if_pos hwaiting] at hy
    split at hy <;> cases hy
    rfl
  apply h.congr (congrArg Engines.added hc.engines) hmap
  intro r'
  by_cases hr : r' = r
  · rw [hr, hg, hwaiting]
    simp
  · rw [(hc.others r' hr).2.2.1]

/-- A generator that returned is not closed. -/
theorem Entries.close (h : Entries tokenizer s calls) {r : RequestId}
    (hx : LLMEngine.step decode tokenizer s (.close r) = some (.ok s')) :
    Entries tokenizer s' calls := by
  have hopen : s.generators r ≠ .returned ∧
      s' = { s with generators := Function.update s.generators r .closed } := by
    simp only [LLMEngine.step] at hx
    split at hx
    · next hg =>
      cases hx
      exact ⟨by simp [hg], rfl⟩
    · next hg =>
      cases hx
      exact ⟨by simp [hg], rfl⟩
    · cases hx
  obtain ⟨hnot, rfl⟩ := hopen
  refine h.congr ?_ ?_ fun r' => ?_ <;> try rfl
  by_cases hr : r' = r
  · simp [hr, hnot]
  · simp [Function.update_of_ne hr]

theorem Entries.engines (h : Entries tokenizer s calls) (hs : Streams decode cc s)
    {a : Engines.Action} (ha : ∀ q, a ≠ .add_request q)
    (hx : LLMEngine.step decode tokenizer s (.engines a) = some (.ok s')) :
    Entries tokenizer s' calls := by
  obtain ⟨-, hadded, hgenerators, -⟩ := (engines_gives hs ha hx).of_ok rfl
  refine h.congr hadded ?_ fun r => by rw [hgenerators]
  rw [step_engines ha] at hx
  obtain ⟨y, -, hy⟩ := Option.map_eq_some_iff.mp hx
  obtain ⟨p, -, hfold⟩ := bind_eq_ok.mp hy
  have hmap := callbacks_prompt_len_map hfold
  exact hmap

/-- Each action keeps the entries. -/
theorem Entries.step (h : Entries tokenizer s calls) (hs : Streams decode cc s) {a : Action}
    (hx : LLMEngine.step decode tokenizer s a = some (.ok s')) :
    Entries tokenizer s' (noteCall tokenizer s a calls) := by
  cases a with
  | generate args =>
    cases hp : args.prompt_ids tokenizer with
    | some prompt_token_ids => exact h.generate hs hp hx
    | none =>
      -- the exception of `create_request` comes before the map is written
      simp only [LLMEngine.step, create_request_eq, hp] at hx
      cases hx
      simp only [noteCall, create_request_eq, hp]
      exact ⟨h.added, h.prompts, h.entry, h.unknown⟩
  | get_output r => exact h.get_output hs hx
  | resume r =>
    simp only [LLMEngine.step] at hx
    split at hx
    · next o hg => exact h.resume hg (Option.some.inj hx)
    · cases hx
  | close r => exact h.close hx
  | pop_request_lifetime_events r =>
    simp only [LLMEngine.step] at hx
    split at hx
    · cases hx
      exact ⟨h.added, h.prompts, h.entry, h.unknown⟩
    · cases hx
  | engines a =>
    by_cases ha : ∃ q, a = .add_request q
    · obtain ⟨q, rfl⟩ := ha
      cases hx
    · exact h.engines hs (fun q hq => ha ⟨q, hq⟩) hx

theorem entries_create (tokenizer : PromptTokenizer) (c : EnginesConfig) :
    Entries tokenizer (create c) [] where
  added := rfl
  prompts _ hc := by cases hc
  entry _ hc := by cases hc
  unknown _ _ := rfl

theorem stepNoted_sound (decode : Tokenizer) (tokenizer : PromptTokenizer) (cc : CacheConfig) :
    runs.Sound (stepNoted decode tokenizer)
      (fun s => Streams decode cc s.1 ∧ Entries tokenizer s.1 s.2) fun _ => True := by
  rintro ⟨s, calls⟩ a x ⟨hs, h⟩ hx
  cases x with
  | error err => trivial
  | ok s' =>
    obtain ⟨s', calls'⟩ := s'
    obtain ⟨hstep, rfl⟩ := beside_eq_ok.mp hx
    exact ⟨(step_gives hs hstep).of_ok rfl, h.step hs hstep⟩

/-! ## Every run -/

/-- What a decision for an added request finds. -/
theorem Entries.found (h : Entries tokenizer s calls) {call : Generated} (hc : call ∈ calls)
    (hr : s.generators call.req.request_id ≠ .returned) :
    (s.prompt_len_map (some call.req.request_id)).getD 0 =
      if call.args.request_id = none then 0 else call.args.prompt_len_value tokenizer := by
  rw [h.entry call hc]
  by_cases hnone : call.args.request_id = none
  · rw [if_pos (Or.inl hnone), if_pos hnone]
    rfl
  · rw [if_neg (not_or.mpr ⟨hnone, hr⟩), if_neg hnone]
    rfl

/-- In every state of every run, the decisions for the unfinished requests compute with
their own lengths and the finished requests have no entry, just when each unfinished
request was added with arguments that its decisions find, and each finished request has
no explicit id or its consumer went on after the last output. -/
theorem lengths_are_own_iff (decode : Tokenizer) (tokenizer : PromptTokenizer) (c : EnginesConfig)
    (s : LLMEngine) (calls : List Generated)
    (h : Reaches (stepNoted decode tokenizer) (create c, []) (s, calls)) :
    OwnLengths s ↔ ∀ call ∈ calls,
      (¬ s.Finished call.req.request_id → call.args.FindsLength tokenizer) ∧
      (s.Finished call.req.request_id → call.args.request_id = none ∨
        s.generators call.req.request_id = .returned) := by
  obtain ⟨(hs : Streams decode c.cache_config s), (hentries : Entries tokenizer s calls)⟩ :=
    (stepNoted_sound decode tokenizer c.cache_config).invariant
      ⟨streams_create c, entries_create tokenizer c⟩ h
  have hadded : ∀ call ∈ calls, call.req ∈ s.engines.added := by
    intro call hc
    rw [← hentries.added]
    exact List.mem_map_of_mem hc
  have hfound : ∀ call ∈ calls, ¬ s.Finished call.req.request_id →
      (call.args.FindsLength tokenizer ↔ (s.prompt_len_map (some call.req.request_id)).getD 0 =
        call.req.prompt_token_ids.length) := by
    intro call hc hf
    rw [hentries.found hc fun hr => hf (hs.finished_of_returned hr)]
    exact GenerateArgs.findsLength_iff (hentries.prompts call hc)
  constructor
  · intro hown call hc
    constructor
    · intro hf
      apply (hfound call hc hf).mpr
      obtain ⟨d, hd⟩ := decides_with_one_length s.prompt_len_map (.ok 0) call.req.request_id
      rw [← get_rom_decision_prompt_len hd]
      exact hown.decisions call.req (hadded call hc) hf _ _ _ d hd
    · intro hf
      by_contra hnot
      have hnone := hown.removed call.req (hadded call hc) hf
      rw [hentries.entry call hc, if_neg hnot] at hnone
      cases hnone
  · intro hall
    have hcall : ∀ req ∈ s.engines.added, ∃ call ∈ calls, call.req = req := by
      intro req hreq
      rw [← hentries.added] at hreq
      exact List.mem_map.mp hreq
    constructor
    · intro req hreq hf rom_config get_bandwidth override d hd
      obtain ⟨call, hc, rfl⟩ := hcall req hreq
      rw [get_rom_decision_prompt_len hd]
      exact (hfound call hc hf).mp ((hall call hc).1 hf)
    · intro req hreq hf
      obtain ⟨call, hc, rfl⟩ := hcall req hreq
      rw [hentries.entry call hc, if_pos ((hall call hc).2 hf)]

/-- A tokenizer that is not asked. -/
def noTokenizer : PromptTokenizer := ⟨fun _ => [], fun _ => []⟩

/-- Arguments with a prompt of three tokens. -/
def threeTokens (request_id : Option RequestId) : GenerateArgs :=
  ⟨none, none, some [1, 2, 3], ⟨[], false, 1, Nat.one_pos⟩, request_id⟩

/-- Request 7 has an explicit id. It is finished, its generator returned, and the entry
is removed. -/
theorem the_entry_of_a_request_with_an_id_is_removed : ∃ (s : LLMEngine) (calls : List Generated),
    s.outputs 7 ≠ [] ∧ calls.map (·.req.request_id) = [7] ∧ OwnLengths s := by
  obtain ⟨⟨s, calls⟩, hr, hs⟩ := reaches_of_any (m := stepNoted (fun _ => none) noTokenizer)
    (s := (create Engines.smallConfig, []))
    [.generate (threeTokens (some 7)), .engines (.context_begin_step 0),
      .engines (.context_batch_returns [4]), .get_output 7, .resume 7]
    (fun s => decide (s.1.outputs 7 ≠ [] ∧ s.2.map (·.req.request_id) = [7] ∧
      s.1.generators 7 = .returned ∧ (s.1.outputs 7).any (·.is_finished) = true))
    (by decide +kernel)
  obtain ⟨hout, hids, hgenerator, hfinished⟩ := of_decide_eq_true hs
  refine ⟨s, calls, hout, hids,
    (lengths_are_own_iff _ noTokenizer Engines.smallConfig s calls hr).mpr ?_⟩
  intro call hc
  have hid : call.req.request_id = 7 := by
    have := List.mem_map_of_mem (f := fun call : Generated => call.req.request_id) hc
    rw [hids] at this
    exact List.mem_singleton.mp this
  rw [hid]
  refine ⟨fun hf => absurd ?_ hf, fun _ => Or.inr hgenerator⟩
  obtain ⟨o, ho, hlast⟩ := List.any_eq_true.mp hfinished
  exact ⟨o, ho, hlast⟩

end LLMEngine

end distserve
