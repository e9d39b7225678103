-- The batches of a worker: the requests that it picks, those that it forwards, and what the
-- global scheduler does with them, as transitions of their lives.
import RecomputeOrMigrate.SimFollows

open calls places

namespace simdistserve.Sim

variable {c : Cluster} {N k i wid : Nat} {busy : Option Nat} {s s' : Sim} {B : Batches}
  {b : Batch} {requests : Nat → Request}

/-! ## Picking -/

theorem take_decodes_append (requests : Nat → Request) (n max : Nat) (queue : List Nat) :
    (take_decodes requests n max queue).1 ++ (take_decodes requests n max queue).2 = queue := by
  induction queue generalizing n max with
  | nil => cases n <;> rfl
  | cons req queue ih =>
    cases n with
    | zero => rfl
    | succ n =>
      unfold take_decodes
      dsimp only
      split
      · rfl
      · exact congrArg (req :: ·) (ih n _)

theorem take_decodes_fits {n max : Nat} {queue : List Nat} :
    ∀ i ∈ (take_decodes requests n max queue).1, (requests i).current_context_len + 1 ≤ max := by
  induction queue generalizing n max with
  | nil => cases n <;> exact nofun
  | cons req queue ih =>
    cases n with
    | zero => exact nofun
    | succ n =>
      unfold take_decodes
      dsimp only
      split
      · exact nofun
      · next hfits =>
        intro i hi
        rcases List.mem_cons.mp hi with rfl | hi
        · exact not_lt.mp hfits
        · exact (ih i hi).trans (Nat.sub_le _ _)

theorem take_chunk_append (requests : Nat → Request) (chunk_id : Option Nat) (n : Nat)
    (queue : List Nat) :
    (take_chunk requests chunk_id n queue).1 ++ (take_chunk requests chunk_id n queue).2 =
      queue := by
  induction queue generalizing n with
  | nil => cases n <;> rfl
  | cons candidate queue ih =>
    cases n with
    | zero => rfl
    | succ n =>
      unfold take_chunk
      dsimp only
      split
      · rfl
      · exact congrArg (candidate :: ·) (ih n)

/-- What the first worker cuts when its loop does not end. -/
theorem cuts_of_size {r : Request} {size chunk_size max : Nat}
    (hsize : sched_size c.config.enable_chunked_prefill r.remain_prefill_lens max chunk_size = size)
    (hfits : ¬ breaks c.config.enable_chunked_prefill size max = true)
    (hmax : max ≤ c.config.max_prefill_tokens) : Cuts c.config r size := by
  unfold Cuts
  unfold sched_size at hsize
  unfold breaks at hfits
  split at hsize
  · next hchunked =>
    rw [if_pos hchunked, decide_eq_true_eq] at hfits
    rw [if_pos hchunked]
    subst hsize
    exact ⟨Nat.min_le_left _ _, Nat.pos_of_ne_zero hfits⟩
  · next hwhole =>
    rw [if_neg hwhole, decide_eq_true_eq] at hfits
    rw [if_neg hwhole]
    subst hsize
    exact ⟨Nat.le_refl _, rfl, (not_lt.mp hfits).trans hmax⟩

/-- The first worker cuts chunks. -/
theorem cut_chunks_follows (first : (c.worker wid).pipe_rank = 0) (chunk_id n chunk_size : Nat)
    {max : Nat} (hmax : max ≤ c.config.max_prefill_tokens) :
    Follows c N (some wid)
      (cut_chunks c.config.enable_chunked_prefill wid chunk_id n chunk_size max s).1.length
      s (Function.update B wid b)
      (cut_chunks c.config.enable_chunked_prefill wid chunk_id n chunk_size max s).2
      (Function.update B wid { b with picked := b.picked ++
        (cut_chunks c.config.enable_chunked_prefill wid chunk_id n chunk_size max s).1 }) := by
  induction n generalizing s b chunk_size max with
  | zero =>
    unfold cut_chunks
    rw [List.append_nil]
    exact .refl
  | succ n ih =>
    unfold cut_chunks
    split
    · rw [List.append_nil]
      exact .refl
    · next candidate queue hqueue =>
      dsimp only
      generalize hsize : sched_size c.config.enable_chunked_prefill
        (s.requests candidate).remain_prefill_lens max chunk_size = size
      split
      · rw [List.append_nil]
        exact .refl
      · next hfits =>
        have hcuts : Cuts c.config (s.requests candidate) size := cuts_of_size hsize hfits hmax
        have hcut : Follows c N (some wid) 1 s (Function.update B wid b)
            ((s.modify_request candidate fun r => r.cut_chunk size chunk_id).modify_worker wid
              fun w => { w with prefill_queue := queue })
            (Function.update B wid { b with picked := b.picked ++ [candidate] }) := by
          refine Follows.of_move (p := .prefill_queue wid) (q := .prefill_picked wid) ?_ hqueue
            nofun ?_ (.cut first hcuts) rfl (Nat.le_refl _)
          · exact (frame_modify_request candidate _).trans
              (frame_modify_worker wid (fun _ => rfl) fun _ => rfl)
          · rw [contents_picked, contents_prefill_queue]
            simp [contents]
            rfl
        have hrest := hcut.trans (ih (b := { b with picked := b.picked ++ [candidate] })
          (chunk_size + size) ((Nat.sub_le max size).trans hmax))
        rw [List.append_assoc, Nat.add_comm] at hrest
        exact hrest

/-! ## Starting -/

theorem log_prefill_follows {result : List Nat} (hpicked : b.picked = result) :
    Follows c N busy 0 s (Function.update B wid b)
      (result.foldl (fun s i => s.modify_request i fun r => r.do_prefill s.now (some wid)) s)
      (Function.update B wid { b with picked := [], items := b.items ++ result }) := by
  induction result generalizing s b with
  | nil =>
    obtain ⟨picked, items, decode_picked, decode_reqs, done⟩ := b
    dsimp only at hpicked
    rw [hpicked, List.append_nil]
    exact .refl
  | cons i result ih =>
    have hstart : Follows c N busy 0 s (Function.update B wid b)
        (s.modify_request i fun r => r.do_prefill s.now (some wid))
        (Function.update B wid { b with picked := result, items := b.items ++ [i] }) := by
      have hhead : s.contents (Function.update B wid b) (.prefill_picked wid) = i :: result := by
        simp [contents, hpicked]
      refine Follows.of_move (q := .prefill_batch wid) (frame_modify_request i _) hhead (by simp) ?_
        .start_prefill rfl (Nat.le_succ _)
      · rw [contents_started]
        simp [contents]
        rfl
    have hrest := hstart.trans_zero
      (ih (b := { b with picked := result, items := b.items ++ [i] }) rfl)
    rw [List.append_assoc] at hrest
    exact hrest

theorem log_decode_follows {result : List Nat} (hpicked : b.decode_picked = result) :
    Follows c N busy 0 s (Function.update B wid b)
      (result.foldl (fun s i => s.modify_request i fun r => r.do_decode s.now (some wid)) s)
      (Function.update B wid { b with
        decode_picked := [], decode_reqs := b.decode_reqs ++ result }) := by
  induction result generalizing s b with
  | nil =>
    obtain ⟨picked, items, decode_picked, decode_reqs, done⟩ := b
    dsimp only at hpicked
    rw [hpicked, List.append_nil]
    exact .refl
  | cons i result ih =>
    have hstart : Follows c N busy 0 s (Function.update B wid b)
        (s.modify_request i fun r => r.do_decode s.now (some wid))
        (Function.update B wid { b with
          decode_picked := result, decode_reqs := b.decode_reqs ++ [i] }) := by
      have hhead : s.contents (Function.update B wid b) (.decode_picked wid) = i :: result := by
        simp [contents, hpicked]
      refine Follows.of_move (q := .decode_batch wid) (frame_modify_request i _) hhead (by simp) ?_
        .start_decode rfl (Nat.le_succ _)
      · rw [contents_decode_started]
        simp [contents]
        rfl
    have hrest := hstart.trans_zero
      (ih (b := { b with decode_picked := result, decode_reqs := b.decode_reqs ++ [i] }) rfl)
    rw [List.append_assoc] at hrest
    exact hrest

/-! ## Entering -/

/-- A part that moves no request. -/
theorem Follows.of_same (frame : Frame c busy s s') (hcontents : s'.contents B = s.contents B)
    (hreq : s'.requests = s.requests) (hlen : s'.queue = s.queue) :
    Follows c N busy 0 s B s' B := by
  refine ⟨frame, ?_⟩
  intro whereabouts hloc
  refine ⟨0, whereabouts, ?_, ?_, ?_⟩
  · unfold population
    rw [hreq]
    exact .refl _
  · unfold LocatedAt
    rw [hcontents]
    exact hloc
  · unfold weight actions
    rw [hlen]

theorem drawn_follows (n : Nat) : Follows c N busy 0 s B { s with drawn := n } B :=
  .of_same ⟨rfl, fun _ => rfl, fun _ _ h => h, fun h => ⟨h.sorted, h.future, h.triggered⟩,
    fun _ => rfl⟩
    rfl rfl rfl

/-- A worker that is not the first takes the next requests of its queue. -/
theorem regroup_follows (later : (c.worker wid).pipe_rank ≠ 0) {block rest : List Nat}
    (hqueue : (s.workers wid).prefill_queue = block ++ rest) :
    Follows c N (some wid) block.length s (Function.update B wid .empty)
      (s.modify_worker wid fun w => { w with prefill_queue := rest })
      (Function.update B wid { Batch.empty with picked := block }) := by
  refine Follows.of_block (p := .prefill_queue wid) (q := .prefill_picked wid)
    (frame_modify_worker wid (fun _ => rfl) fun _ => rfl) hqueue nofun ?_
    (fun _ _ => .regroup later) rfl le_rfl
  rw [contents_picked, contents_prefill_queue]
  simp [contents, Batch.empty]

variable (c N wid s B) in
/-- The requests of `_enter_prefill` are in the batch afterwards. -/
theorem enter_prefill_follows :
    Follows c N (some wid) (enter_prefill c s wid).1.length s (Function.update B wid .empty)
      (enter_prefill c s wid).2
      (Function.update B wid { Batch.empty with items := (enter_prefill c s wid).1 }) := by
  unfold enter_prefill
  dsimp only
  split
  · next later =>
    dsimp only
    have hpick := regroup_follows (N := N) (B := B) later (take_chunk_append s.requests
      ((s.workers wid).prefill_queue.head?.bind fun i => (s.requests i).chunk_id)
      (min c.config.max_prefill_batch (s.workers wid).prefill_queue.length)
      (s.workers wid).prefill_queue).symm
    exact hpick.trans (log_prefill_follows rfl)
  · next first =>
    have hcut := (drawn_follows (s.drawn + 1)).trans_zero (cut_chunks_follows (N := N) (B := B)
      (s := { s with drawn := s.drawn + 1 }) (b := .empty) (not_not.mp first) (c.uuids s.drawn)
      (min c.config.max_prefill_batch (s.workers wid).prefill_queue.length) 0 le_rfl)
    exact hcut.trans (log_prefill_follows rfl)

variable (c N wid s B) in
/-- The requests of `_enter_decodes` are in the batch afterwards. -/
theorem enter_decodes_follows (remaining : Nat) (hpicked : b.decode_picked = [])
    (hreqs : b.decode_reqs = []) :
    Follows c N (some wid) (enter_decodes s wid remaining).1.length s (Function.update B wid b)
      (enter_decodes s wid remaining).2
      (Function.update B wid { b with decode_reqs := (enter_decodes s wid remaining).1 }) := by
  unfold enter_decodes
  dsimp only
  generalize htaken : take_decodes s.requests
    (min remaining (s.workers wid).decode_queue.length) 50000 (s.workers wid).decode_queue = taken
  have hqueue : (s.workers wid).decode_queue = taken.1 ++ taken.2 := by
    rw [← htaken]
    exact (take_decodes_append ..).symm
  have hfits : ∀ i ∈ taken.1, (s.requests i).current_context_len + 1 ≤ 50000 := by
    rw [← htaken]
    exact take_decodes_fits
  have hpick : Follows c N (some wid) taken.1.length s (Function.update B wid b)
      (s.modify_worker wid fun w => { w with decode_queue := taken.2 })
      (Function.update B wid { b with decode_picked := taken.1 }) := by
    refine Follows.of_block (p := .decode_queue wid) (q := .decode_picked wid)
      (frame_modify_worker wid (fun _ => rfl) fun _ => rfl) hqueue nofun ?_
      (fun i hi => .pick_decode (hfits i hi)) rfl le_rfl
    rw [contents_decode_picked, contents_decode_queue]
    simp [contents, hpicked]
  have hboth := hpick.trans (log_decode_follows (b := { b with decode_picked := taken.1 }) rfl)
  obtain ⟨picked, items, decode_picked, decode_reqs, done⟩ := b
  dsimp only at hpicked hreqs hboth
  subst hpicked hreqs
  exact hboth

/-! ## Forwarding -/

theorem find_best_worker_mem {load : Nat → Nat} {heads : List Nat}
    (h : find_best_worker load heads = .ok wid) : wid ∈ heads := by
  cases heads with
  | nil => cases h
  | cons first rest =>
    cases h
    -- the best of those seen is one of them
    have hbest : ∀ (others : List Nat) (best : Nat), best ∈ first :: rest →
        (∀ w ∈ others, w ∈ first :: rest) →
        others.foldl (fun best w => if load w < load best then w else best) best ∈
          first :: rest := by
      intro others
      induction others with
      | nil => exact fun best hbest _ => hbest
      | cons w others ih =>
        intro best hbest hall
        apply ih _ _ fun v hv => hall v (List.mem_cons_of_mem w hv)
        dsimp only
        split
        · exact hall w List.mem_cons_self
        · exact hbest
    exact hbest rest first List.mem_cons_self fun w hw => List.mem_cons_of_mem first hw

theorem push_prefill_weight (s : Sim) (wid : Nat) (items : List Nat) :
    ((s.push_prefill wid items).wakeup wid).weight = s.weight + 1 :=
  schedule_weight (s.push_prefill wid items) _ 1 0

theorem push_decode_weight (s : Sim) (wid : Nat) (items : List Nat) :
    ((s.push_decode wid items).wakeup wid).weight = s.weight + 1 :=
  schedule_weight (s.push_decode wid items) _ 1 0

theorem frame_push_prefill {items : List Nat} (hne : items ≠ []) :
    Frame c busy s ((s.push_prefill wid items).wakeup wid) :=
  frame_woken wid (fun _ => rfl) (fun _ => rfl) fun _ =>
    .inl (List.append_ne_nil_of_right_ne_nil _ hne)

theorem frame_push_decode {items : List Nat} (hne : items ≠ []) :
    Frame c busy s ((s.push_decode wid items).wakeup wid) :=
  frame_woken wid (fun _ => rfl) (fun _ => rfl) fun _ =>
    .inr (List.append_ne_nil_of_right_ne_nil _ hne)

/-- A request of a batch joins the prefill queue of a worker. -/
theorem deliver_prefill_follows {items : List Nat} {r : Request} {v : Nat} {f : Request → Request}
    (hitems : b.items = i :: items) (hr : f (s.requests i) = r)
    (hlife : Life c s.now (s.requests i) (.placed (.prefill_batch wid)) r
      (.placed (.prefill_queue v))) :
    Follows c N busy 0 s (Function.update B wid b)
      (((s.modify_request i f).push_prefill v [i]).wakeup v)
      (Function.update B wid { b with items := items }) := by
  have hhead : s.contents (Function.update B wid b) (.prefill_batch wid) = i :: items := by
    simp [contents, hitems]
  have hne : Place.prefill_queue v ≠ .prefill_batch wid := by simp
  refine Follows.of_move
    ((frame_modify_request i f).trans (frame_push_prefill (List.cons_ne_nil i []))) hhead hne
    ?_ hlife ?_ (push_prefill_weight _ _ _).le
  · rw [contents_items, contents_wakeup, contents_push_prefill, Function.update_comm hne]
    rfl
  · rw [← hr]
    rfl

/-- A request of a batch joins the decode queue of a worker. -/
theorem deliver_decode_follows {items : List Nat} {r : Request} {v : Nat} {f : Request → Request}
    (hitems : b.items = i :: items) (hr : f (s.requests i) = r)
    (hlife : Life c s.now (s.requests i) (.placed (.prefill_batch wid)) r
      (.placed (.decode_queue v))) :
    Follows c N busy 0 s (Function.update B wid b)
      (((s.modify_request i f).push_decode v [i]).wakeup v)
      (Function.update B wid { b with items := items }) := by
  have hhead : s.contents (Function.update B wid b) (.prefill_batch wid) = i :: items := by
    simp [contents, hitems]
  have hne : Place.decode_queue v ≠ .prefill_batch wid := by simp
  refine Follows.of_move
    ((frame_modify_request i f).trans (frame_push_decode (List.cons_ne_nil i []))) hhead hne
    ?_ hlife ?_ (push_decode_weight _ _ _).le
  · rw [contents_items, contents_wakeup, contents_push_decode, Function.update_comm hne]
    rfl
  · rw [← hr]
    rfl

theorem modify_request_twice (s : Sim) (i : Nat) (f g : Request → Request) :
    (s.modify_request i f).modify_request i g = s.modify_request i fun r => g (f r) := by
  simp only [modify_request, Function.update_self, Function.update_idem]

/-- The scheduler sends a request that is not finished to the head of an instance. -/
theorem schedule_decode_eq (hmore : (s.requests i).should_finish = false)
    (h : schedule_decode c s i = .ok s') :
    ∃ v ∈ c.decode_heads, s' = ((s.modify_request i fun r =>
      r.wait_decode s.now (some v)).push_decode v [i]).wakeup v := by
  unfold schedule_decode at h
  split at h
  · rw [if_neg (by rw [hmore]; exact Bool.false_ne_true)] at h
    obtain ⟨v, hv, h⟩ := bind_eq_ok.mp h
    cases h
    exact ⟨v, find_best_worker_mem hv, rfl⟩
  · cases h

/-- What is done with a request depends on the request after its prefill. -/
theorem exit_prefill_item_eq {s1 : Sim}
    (hs1 : s.modify_request i (c.after_prefill s.now wid) = s1) :
    s1.requests i = c.after_prefill s.now wid (s.requests i) ∧ exit_prefill_item c wid i s =
      if c.prefills_on wid (c.after_prefill s.now wid (s.requests i)) then
        .ok (s1.forward_prefill (c.worker wid).next_worker [i])
      else if (c.after_prefill s.now wid (s.requests i)).should_finish then .ok s1
      else if (c.worker wid).should_request_stay then
        .ok (s1.forward_decode (c.worker wid).next_worker [i])
      else schedule_decode c s1 i := by
  have hrequest : s1.requests i = c.after_prefill s.now wid (s.requests i) := by
    rw [← hs1, modify_request_requests, Function.update_self]
  refine ⟨hrequest, ?_⟩
  rw [← hrequest, ← hs1]
  rfl

variable (N busy B) in
/-- A request whose prefill ends at a worker goes on with its life. -/
theorem exit_prefill_item_follows {items : List Nat} (hitems : b.items = i :: items)
    (h : exit_prefill_item c wid i s = .ok s') :
    Follows c N busy 0 s (Function.update B wid b) s'
      (Function.update B wid { b with items := items }) := by
  obtain ⟨s1, hs1⟩ : ∃ s1, s.modify_request i (c.after_prefill s.now wid) = s1 := ⟨_, rfl⟩
  obtain ⟨hrequest, heq⟩ := exit_prefill_item_eq hs1
  rw [heq] at h
  split at h
  · next hon =>
    cases h
    subst hs1
    exact deliver_prefill_follows hitems rfl (.pass_prefill hon)
  · next hdone =>
    rw [Bool.not_eq_true] at hdone
    split at h
    · next hfinish =>
      cases h
      subst hs1
      have hhead : s.contents (Function.update B wid b) (.prefill_batch wid) = i :: items := by
        simp [contents, hitems]
      exact Follows.of_leave (frame_modify_request i _) hhead (contents_items ..)
        (.exit_prefill hdone hfinish) rfl (Nat.le_succ _)
    · next hmore =>
      rw [Bool.not_eq_true] at hmore
      split at h
      · next hstays =>
        cases h
        subst hs1
        exact deliver_decode_follows hitems rfl (.stay hdone hmore hstays)
      · next hleaves =>
        rw [Bool.not_eq_true] at hleaves
        obtain ⟨v, hv, rfl⟩ := schedule_decode_eq (hrequest ▸ hmore) h
        subst hs1
        rw [modify_request_twice]
        exact deliver_decode_follows hitems rfl (.hand_over hdone hmore hleaves hv)

variable (N busy B) in
theorem exit_prefill_follows {items : List Nat} (hitems : b.items = items)
    (h : exit_prefill c wid items s = .ok s') :
    Follows c N busy 0 s (Function.update B wid b) s'
      (Function.update B wid { b with items := [] }) := by
  induction items generalizing s b with
  | nil =>
    cases h
    rw [← hitems]
    exact .refl
  | cons i items ih =>
    unfold exit_prefill at h
    obtain ⟨s1, h1, h⟩ := bind_eq_ok.mp h
    have hrest := ih (b := { b with items := items }) rfl h
    exact (exit_prefill_item_follows N busy B hitems h1).trans_zero hrest

/-! ## Decoded requests -/

/-- What the loop of `_exit_decode` does with the requests. -/
def finish_decodes (c : Cluster) (wid : Nat) (decode_reqs : List Nat) (s : Sim) : Sim :=
  decode_reqs.foldl (fun s i => s.modify_request i (c.after_decode s.now wid)) s

theorem finish_decodes_requests {reqs : List Nat} (hi : i ∉ reqs) :
    (finish_decodes c wid reqs s).requests i = s.requests i := by
  induction reqs generalizing s with
  | nil => rfl
  | cons j reqs ih =>
    obtain ⟨hj, hrest⟩ := not_or.mp (mt List.mem_cons.mpr hi)
    rw [show finish_decodes c wid (j :: reqs) s =
      finish_decodes c wid reqs (s.modify_request j (c.after_decode s.now wid)) from rfl,
      ih hrest, modify_request_requests, Function.update_of_ne hj]

/-- Those that are not finished are done, and the others leave. -/
theorem finish_decodes_follows {reqs : List Nat} (hreqs : b.decode_reqs = reqs)
    (hnd : reqs.Nodup) :
    Follows c N busy 0 s (Function.update B wid b) (finish_decodes c wid reqs s)
      (Function.update B wid { b with
        decode_reqs := []
        done := b.done ++ reqs.filter fun i =>
          !((finish_decodes c wid reqs s).requests i).should_finish }) := by
  induction reqs generalizing s b with
  | nil =>
    obtain ⟨picked, items, decode_picked, decode_reqs, done⟩ := b
    dsimp only at hreqs
    rw [hreqs, List.filter_nil, List.append_nil]
    exact .refl
  | cons i reqs ih =>
    obtain ⟨hi, hnd⟩ := List.nodup_cons.mp hnd
    have hhead : s.contents (Function.update B wid b) (.decode_batch wid) = i :: reqs := by
      simp [contents, hreqs]
    generalize hs1 : s.modify_request i (c.after_decode s.now wid) = s1
    have hfold : finish_decodes c wid (i :: reqs) s = finish_decodes c wid reqs s1 := by
      rw [← hs1]
      rfl
    have hrequest : (finish_decodes c wid reqs s1).requests i =
        c.after_decode s.now wid (s.requests i) := by
      rw [finish_decodes_requests hi, ← hs1, modify_request_requests, Function.update_self]
    rw [hfold, List.filter_cons, hrequest]
    subst hs1
    cases hfinish : (c.after_decode s.now wid (s.requests i)).should_finish with
    | true =>
      have hleave : Follows c N busy 0 s (Function.update B wid b)
          (s.modify_request i (c.after_decode s.now wid))
          (Function.update B wid { b with decode_reqs := reqs }) :=
        Follows.of_leave (frame_modify_request i _) hhead (contents_decode_reqs ..)
          (.exit_decode hfinish) rfl (Nat.le_succ _)
      exact hleave.trans_zero (ih (b := { b with decode_reqs := reqs }) rfl hnd)
    | false =>
      have hdone : Follows c N busy 0 s (Function.update B wid b)
          (s.modify_request i (c.after_decode s.now wid))
          (Function.update B wid { b with decode_reqs := reqs, done := b.done ++ [i] }) := by
        refine Follows.of_move (q := .decode_done wid) (frame_modify_request i _) hhead (by simp) ?_
          (.finish_decode hfinish) rfl (Nat.le_succ _)
        rw [contents_finished]
        simp [contents]
        rfl
      have hrest := hdone.trans_zero
        (ih (b := { b with decode_reqs := reqs, done := b.done ++ [i] }) rfl hnd)
      rw [List.append_assoc] at hrest
      exact hrest

/-- The requests that are done join the decode queue of the next worker. -/
theorem deliver_done_follows {batch : List Nat} (hdone : b.done = []) (hsome : batch ≠ []) :
    Follows c N busy 0 s (Function.update B wid { b with done := b.done ++ batch })
      ((s.push_decode (c.worker wid).next_worker batch).wakeup (c.worker wid).next_worker)
      (Function.update B wid b) := by
  obtain ⟨picked, items, decode_picked, decode_reqs, done⟩ := b
  dsimp only at hdone
  subst hdone
  have hhead : s.contents (Function.update B wid ⟨picked, items, decode_picked, decode_reqs,
      [] ++ batch⟩) (.decode_done wid) = batch ++ [] := by
    simp [contents]
  have hne : Place.decode_queue (c.worker wid).next_worker ≠ .decode_done wid := by simp
  refine Follows.of_block (frame_push_decode hsome) hhead hne ?_ (fun _ _ => .pass_decode) rfl ?_
  · have hback := contents_done (B := B)
      (s := (s.push_decode (c.worker wid).next_worker batch).wakeup (c.worker wid).next_worker)
      wid [] ⟨picked, items, decode_picked, decode_reqs, [] ++ batch⟩
    rw [hback, contents_wakeup, contents_push_decode, Function.update_comm hne]
  · rw [push_decode_weight]
    exact Nat.add_le_add_left (List.length_pos_of_ne_nil hsome) _

variable (c N wid busy s B) in
/-- The requests of `_exit_decode` join the queue of the next worker, or leave. -/
theorem exit_decode_follows {reqs : List Nat} (hreqs : b.decode_reqs = reqs)
    (hdone : b.done = []) (hnd : reqs.Nodup) :
    Follows c N busy 0 s (Function.update B wid b) (exit_decode c wid reqs s)
      (Function.update B wid { b with decode_reqs := [] }) := by
  unfold exit_decode
  split
  · next hnil =>
    rw [← hnil, ← hreqs]
    exact .refl
  · have hfinish : Follows c N busy 0 s (Function.update B wid b) (finish_decodes c wid reqs s) _ :=
      finish_decodes_follows hreqs hnd
    change Follows c N busy 0 s _ ((finish_decodes c wid reqs s).forward_decode
      (c.worker wid).next_worker (reqs.filter fun i =>
        !((finish_decodes c wid reqs s).requests i).should_finish)) _
    generalize (reqs.filter fun i =>
      !((finish_decodes c wid reqs s).requests i).should_finish) = batch at hfinish ⊢
    apply hfinish.trans_zero
    unfold forward_decode
    split
    · next hempty =>
      rw [hempty, List.append_nil]
      exact .refl
    · next hsome =>
      exact deliver_done_follows (b := { b with decode_reqs := [] }) hdone hsome

end simdistserve.Sim
