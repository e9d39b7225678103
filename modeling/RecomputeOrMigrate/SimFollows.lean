-- The parts of a simulated step are transitions of the lives of the requests, and the lists of
-- the workers say where the requests are.
import Mathlib.Algebra.BigOperators.Group.List.Basic
import RecomputeOrMigrate.General.Places
import RecomputeOrMigrate.SimFrame
import RecomputeOrMigrate.SimLife

open calls places

namespace simdistserve

/-! ## The contents of the places -/

/-- The requests that the process of a worker holds. -/
structure Batch where
  picked : List Nat
  items : List Nat
  decode_picked : List Nat
  decode_reqs : List Nat
  done : List Nat

def Batch.empty : Batch := ⟨[], [], [], [], []⟩

abbrev Batches := Nat → Batch

/-- Between two events a process holds the batch that is executed. -/
def Status.batch : Status → Batch
  | .prefilling prefill_items decode_reqs => ⟨[], prefill_items, [], decode_reqs, []⟩
  | .decoding decode_reqs => ⟨[], [], [], decode_reqs, []⟩
  | _ => .empty

namespace Sim

def batches (s : Sim) : Batches := fun wid => (s.workers wid).status.batch

/-- The requests at a place, when the processes hold `B`. -/
def contents (s : Sim) (B : Batches) : Place → List Nat
  | .prefill_queue wid => (s.workers wid).prefill_queue
  | .prefill_picked wid => (B wid).picked
  | .prefill_batch wid => (B wid).items
  | .decode_queue wid => (s.workers wid).decode_queue
  | .decode_picked wid => (B wid).decode_picked
  | .decode_batch wid => (B wid).decode_reqs
  | .decode_done wid => (B wid).done

/-- Each request is once where it is said to be. -/
def LocatedAt (s : Sim) (B : Batches) (whereabouts : Nat → Where) : Prop :=
  Located (s.contents B) fun i => (whereabouts i).place

def population (s : Sim) (whereabouts : Nat → Where) : Population := ⟨s.requests, whereabouts⟩

/-- A part of a step leads from `s` with `B` to `s'` with `B'`. The requests make at least as
many transitions as there are new events and `k` more. -/
structure Follows (c : Cluster) (N : Nat) (busy : Option Nat) (k : Nat) (s : Sim) (B : Batches)
    (s' : Sim) (B' : Batches) : Prop where
  frame : Frame c busy s s'
  moves : ∀ whereabouts, s.LocatedAt B whereabouts → ∃ n whereabouts',
    Population.Steps c s.now N n (s.population whereabouts) (s'.population whereabouts') ∧
    s'.LocatedAt B' whereabouts' ∧ s'.weight + k ≤ s.weight + n

variable {c : Cluster} {N k l i wid : Nat} {busy : Option Nat} {s s' s'' : Sim}
  {B B' B'' : Batches} {p q : Place} {rest : List Nat} {r : Request}

theorem Follows.refl : Follows c N busy 0 s B s B :=
  ⟨.refl, fun whereabouts h => ⟨0, whereabouts, .refl _, h, le_rfl⟩⟩

theorem Follows.trans (h : Follows c N busy k s B s' B') (h' : Follows c N busy l s' B' s'' B'') :
    Follows c N busy (k + l) s B s'' B'' := by
  refine ⟨h.frame.trans h'.frame, ?_⟩
  intro whereabouts hloc
  obtain ⟨n, whereabouts1, hsteps, hloc1, hlen⟩ := h.moves whereabouts hloc
  obtain ⟨m, whereabouts2, hsteps', hloc2, hlen'⟩ := h'.moves whereabouts1 hloc1
  rw [h.frame.now] at hsteps'
  exact ⟨n + m, whereabouts2, hsteps.trans hsteps', hloc2, by omega⟩

/-- Parts that do not take requests out of queues. -/
theorem Follows.trans_zero (h : Follows c N busy 0 s B s' B')
    (h' : Follows c N busy k s' B' s'' B'') : Follows c N busy k s B s'' B'' :=
  Nat.zero_add k ▸ h.trans h'

/-! ## One request -/

theorem LocatedAt.placed {whereabouts : Nat → Where} (h : s.LocatedAt B whereabouts)
    (hp : s.contents B p = i :: rest) : whereabouts i = .placed p := by
  have hplace := Located.at_head h hp
  exact Where.placed_of_place hplace

theorem place_update (whereabouts : Nat → Where) (i : Nat) (o : Where) :
    (fun j => (Function.update whereabouts i o j).place) =
      Function.update (fun j => (whereabouts j).place) i o.place := by
  funext j
  by_cases hj : j = i
  · subst hj
    rw [Function.update_self, Function.update_self]
  · rw [Function.update_of_ne hj, Function.update_of_ne hj]

/-- The first request of a place goes to the end of another place. -/
theorem Follows.of_move (frame : Frame c busy s s') (hp : s.contents B p = i :: rest)
    (hne : q ≠ p)
    (hcontents : s'.contents B' =
      Function.update (Function.update (s.contents B) p rest) q (s.contents B q ++ [i]))
    (hlife : Life c s.now (s.requests i) (.placed p) r (.placed q))
    (hreq : s'.requests = Function.update s.requests i r)
    (hlen : s'.weight + k ≤ s.weight + 1) : Follows c N busy k s B s' B' := by
  refine ⟨frame, ?_⟩
  intro whereabouts hloc
  have hi := hloc.placed hp
  refine ⟨1, Function.update whereabouts i (.placed q), .single ⟨i, r, .placed q, ?_, ?_, ?_⟩,
    ?_, hlen⟩
  · rw [← hi] at hlife
    exact hlife
  · intro hpending
    rw [show (s.population whereabouts).whereabouts i = .placed p from hi] at hpending
    cases hpending
  · unfold population
    rw [hreq]
  · unfold LocatedAt
    rw [place_update, hcontents]
    exact Located.move hloc hp hne

/-- The first request of a place leaves the cluster. -/
theorem Follows.of_leave (frame : Frame c busy s s') (hp : s.contents B p = i :: rest)
    (hcontents : s'.contents B' = Function.update (s.contents B) p rest)
    (hlife : Life c s.now (s.requests i) (.placed p) r .gone)
    (hreq : s'.requests = Function.update s.requests i r)
    (hlen : s'.weight + k ≤ s.weight + 1) : Follows c N busy k s B s' B' := by
  refine ⟨frame, ?_⟩
  intro whereabouts hloc
  have hi := hloc.placed hp
  refine ⟨1, Function.update whereabouts i .gone, .single ⟨i, r, .gone, ?_, ?_, ?_⟩, ?_, hlen⟩
  · rw [← hi] at hlife
    exact hlife
  · intro hpending
    rw [show (s.population whereabouts).whereabouts i = .placed p from hi] at hpending
    cases hpending
  · unfold population
    rw [hreq]
  · unfold LocatedAt
    rw [place_update, hcontents]
    exact Located.leave hloc hp

/-! ## Several requests -/

/-- The first requests of a place go to the end of another one, and do not change. -/
theorem steps_of_block {requests : Nat → Request} {now : ℚ} {block : List Nat} (hne : q ≠ p)
    (hlife : ∀ i ∈ block, Life c now (requests i) (.placed p) (requests i) (.placed q))
    {contents : Place → List Nat} {whereabouts : Nat → Where}
    (hloc : Located contents fun i => (whereabouts i).place) (hp : contents p = block ++ rest) :
    ∃ whereabouts', Population.Steps c now N block.length ⟨requests, whereabouts⟩
        ⟨requests, whereabouts'⟩ ∧
      Located (Function.update (Function.update contents p rest) q (contents q ++ block))
        fun i => (whereabouts' i).place := by
  induction block generalizing contents whereabouts with
  | nil =>
    refine ⟨whereabouts, .refl _, ?_⟩
    have hsame : Function.update contents p rest = contents := by
      rw [show rest = contents p from hp.symm, Function.update_eq_self]
    rw [hsame, List.append_nil, Function.update_eq_self]
    exact hloc
  | cons i block ih =>
    have hi : whereabouts i = .placed p := Where.placed_of_place (hloc.at_head hp)
    have hstep : Population.Step c now N ⟨requests, whereabouts⟩
        ⟨requests, Function.update whereabouts i (.placed q)⟩ := by
      refine ⟨i, requests i, .placed q, ?_, ?_, ?_⟩
      · dsimp only
        rw [hi]
        exact hlife i List.mem_cons_self
      · dsimp only
        rw [hi]
        exact nofun
      · rw [Function.update_eq_self]
    have hmoved : Located
        (Function.update (Function.update contents p (block ++ rest)) q (contents q ++ [i]))
        fun j => (Function.update whereabouts i (.placed q) j).place := by
      rw [place_update]
      exact Located.move hloc hp hne
    obtain ⟨whereabouts', hsteps, hlocated⟩ :=
      ih (fun j hj => hlife j (List.mem_cons_of_mem i hj)) hmoved
        (by rw [Function.update_of_ne hne.symm, Function.update_self])
    refine ⟨whereabouts', ?_, ?_⟩
    · rw [List.length_cons, Nat.add_comm]
      exact (Population.Steps.single hstep).trans hsteps
    · rw [Function.update_self, Function.update_comm hne.symm, Function.update_idem,
        Function.update_comm hne, Function.update_idem, List.append_assoc] at hlocated
      exact hlocated

theorem Follows.of_block {block : List Nat} (frame : Frame c busy s s')
    (hp : s.contents B p = block ++ rest) (hne : q ≠ p)
    (hcontents : s'.contents B' =
      Function.update (Function.update (s.contents B) p rest) q (s.contents B q ++ block))
    (hlife : ∀ i ∈ block,
      Life c s.now (s.requests i) (.placed p) (s.requests i) (.placed q))
    (hreq : s'.requests = s.requests)
    (hlen : s'.weight + k ≤ s.weight + block.length) :
    Follows c N busy k s B s' B' := by
  refine ⟨frame, ?_⟩
  intro whereabouts hloc
  obtain ⟨whereabouts', hsteps, hlocated⟩ := steps_of_block (N := N) hne hlife hloc hp
  refine ⟨block.length, whereabouts', ?_, ?_, hlen⟩
  · unfold population
    rw [hreq]
    exact hsteps
  · unfold LocatedAt
    rw [hcontents]
    exact hlocated

/-! ## The lists of a worker -/

section contents

variable (s B) (wid) (items : List Nat)

theorem contents_prefill_queue : (s.modify_worker wid fun w => { w with
      prefill_queue := items }).contents B =
    Function.update (s.contents B) (.prefill_queue wid) items := by
  funext p
  cases p <;> simp [contents, Function.update_apply] <;> split <;> simp_all

theorem contents_decode_queue : (s.modify_worker wid fun w => { w with
      decode_queue := items }).contents B =
    Function.update (s.contents B) (.decode_queue wid) items := by
  funext p
  cases p <;> simp [contents, Function.update_apply] <;> split <;> simp_all

theorem contents_wakeup : (s.wakeup wid).contents B = s.contents B := by
  funext p
  cases p <;> simp [contents, wakeup_worker]

theorem contents_push_prefill : (s.push_prefill wid items).contents B =
    Function.update (s.contents B) (.prefill_queue wid)
      (s.contents B (.prefill_queue wid) ++ items) := by
  unfold push_prefill
  exact contents_prefill_queue _ _ _ _

theorem contents_push_decode : (s.push_decode wid items).contents B =
    Function.update (s.contents B) (.decode_queue wid)
      (s.contents B (.decode_queue wid) ++ items) := by
  unfold push_decode
  exact contents_decode_queue _ _ _ _

variable (b : Batch) (items' : List Nat)

theorem contents_picked :
    s.contents (Function.update B wid { b with picked := items }) =
      Function.update (s.contents (Function.update B wid b)) (.prefill_picked wid) items := by
  funext p
  cases p <;> simp [contents, Function.update_apply] <;> split <;> simp_all

theorem contents_started :
    s.contents (Function.update B wid { b with picked := items, items := items' }) =
      Function.update (Function.update (s.contents (Function.update B wid b))
        (.prefill_picked wid) items) (.prefill_batch wid) items' := by
  funext p
  cases p <;> simp [contents, Function.update_apply] <;> split <;> simp_all

theorem contents_items :
    s.contents (Function.update B wid { b with items := items }) =
      Function.update (s.contents (Function.update B wid b)) (.prefill_batch wid) items := by
  funext p
  cases p <;> simp [contents, Function.update_apply] <;> split <;> simp_all

theorem contents_decode_picked :
    s.contents (Function.update B wid { b with decode_picked := items }) =
      Function.update (s.contents (Function.update B wid b)) (.decode_picked wid) items := by
  funext p
  cases p <;> simp [contents, Function.update_apply] <;> split <;> simp_all

theorem contents_decode_started :
    s.contents (Function.update B wid { b with decode_picked := items, decode_reqs := items' }) =
      Function.update (Function.update (s.contents (Function.update B wid b))
        (.decode_picked wid) items) (.decode_batch wid) items' := by
  funext p
  cases p <;> simp [contents, Function.update_apply] <;> split <;> simp_all

theorem contents_decode_reqs :
    s.contents (Function.update B wid { b with decode_reqs := items }) =
      Function.update (s.contents (Function.update B wid b)) (.decode_batch wid) items := by
  funext p
  cases p <;> simp [contents, Function.update_apply] <;> split <;> simp_all

theorem contents_finished :
    s.contents (Function.update B wid { b with decode_reqs := items, done := items' }) =
      Function.update (Function.update (s.contents (Function.update B wid b))
        (.decode_batch wid) items) (.decode_done wid) items' := by
  funext p
  cases p <;> simp [contents, Function.update_apply] <;> split <;> simp_all

theorem contents_done :
    s.contents (Function.update B wid { b with done := items }) =
      Function.update (s.contents (Function.update B wid b)) (.decode_done wid) items := by
  funext p
  cases p <;> simp [contents, Function.update_apply] <;> split <;> simp_all

end contents

end Sim

end simdistserve
