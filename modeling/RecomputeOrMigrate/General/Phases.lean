-- Things that go through the same phases in the same order. A signal tells that a thing
-- entered a phase, and its log keeps what it entered.
import Mathlib.Data.List.Nodup
import Mathlib.Data.List.Perm.Basic

namespace phases

variable {κ τ : Type}

/-! ## A log -/

/-- `t` goes on the log, unless it may be a repetition and is the last entry. -/
def record [DecidableEq τ] (entries : List τ) (t : τ) (dont_add_if_dup : Bool) : List τ :=
  if dont_add_if_dup ∧ entries.getLast? = some t then entries else entries ++ [t]

/-- The log after some signals. -/
def recordAll [DecidableEq τ] (entries : List τ) (signals : List (τ × Bool)) : List τ :=
  signals.foldl (fun entries signal => record entries signal.1 signal.2) entries

theorem recordAll_append [DecidableEq τ] (entries : List τ) (signals more : List (τ × Bool)) :
    recordAll entries (signals ++ more) = recordAll (recordAll entries signals) more :=
  List.foldl_append

variable {order : List τ} {n : Nat} {t : τ}

theorem take_next (h : order[n]? = some t) : order.take (n + 1) = order.take n ++ [t] := by
  rw [List.take_add_one, h]
  rfl

/-- A thing enters its next phase. -/
theorem record_next [DecidableEq τ] (hnd : order.Nodup) (h : order[n]? = some t) (d : Bool) :
    record (order.take n) t d = order.take (n + 1) := by
  unfold record
  rw [take_next h]
  apply if_neg
  rintro ⟨-, hlast⟩
  have hmem : t ∈ order.take n := List.mem_of_getLast? hlast
  have hnd' := hnd.sublist (List.take_sublist (n + 1) order)
  rw [take_next h] at hnd'
  exact (List.nodup_append.mp hnd').2.2 t hmem t (List.mem_singleton.mpr rfl) rfl

/-- A repeated signal does not count. -/
theorem record_again [DecidableEq τ] (h : order[n]? = some t) :
    record (order.take (n + 1)) t true = order.take (n + 1) := by
  unfold record
  apply if_pos
  rw [take_next h]
  exact ⟨rfl, List.getLast?_concat⟩

/-! ## All logs -/

/-- The log of each thing lists the phases that it entered, as many as its place says. A
thing without a place has no log. -/
structure Logged (order : List τ) (places : List (κ × Nat)) (log : κ → Option (List τ)) :
    Prop where
  entered : ∀ p ∈ places, log p.1 = some (order.take p.2)
  unknown : ∀ k ∉ places.map Prod.fst, log k = none

/-- Between two places of all things, nothing happens, or some things enter the same phase.
Things that are in it already may signal it again. -/
inductive Enters (order : List τ) : List (κ × Nat) → (κ → List (τ × Bool)) → List (κ × Nat) → Prop
  | stays {places places' : List (κ × Nat)} {signals : κ → List (τ × Bool)}
      (same : places'.Perm places) (silent : ∀ k, signals k = []) :
      Enters order places signals places'
  | enters {places places' rest : List (κ × Nat)} {signals : κ → List (τ × Bool)}
      {moved : List κ} {n : Nat} {t : τ} (phase : order[n]? = some t)
      (before : places.Perm (moved.map (·, n) ++ rest))
      (after : places'.Perm (moved.map (·, n + 1) ++ rest))
      (signal : ∀ k ∈ moved, ∃ d, signals k = [(t, d)])
      (others : ∀ k ∉ moved, signals k = [] ∨ signals k = [(t, true)] ∧ (k, n + 1) ∈ rest) :
      Enters order places signals places'

variable {places places' : List (κ × Nat)} {signals : κ → List (τ × Bool)}
  {log log' : κ → Option (List τ)}

/-- Each thing that enters the phase signals it once, and no other thing signals. -/
theorem Enters.each [DecidableEq κ] {rest : List (κ × Nat)} {moved : List κ} {n : Nat} {t : τ}
    {d : Bool} (phase : order[n]? = some t) (before : places.Perm (moved.map (·, n) ++ rest))
    (after : places'.Perm (moved.map (·, n + 1) ++ rest))
    (signal : ∀ k, signals k = if k ∈ moved then [(t, d)] else []) :
    Enters order places signals places' := by
  refine .enters phase before after ?_ ?_
  · intro k hk
    exact ⟨d, by rw [signal, if_pos hk]⟩
  · intro k hk
    exact Or.inl (by rw [signal, if_neg hk])

theorem Enters.perm {before after : List (κ × Nat)} (h : Enters order places signals places')
    (hb : before.Perm places) (ha : after.Perm places') : Enters order before signals after := by
  cases h with
  | stays same silent => exact .stays (ha.trans (same.trans hb.symm)) silent
  | enters phase hbefore hafter signal others =>
    exact .enters phase (hb.trans hbefore) (ha.trans hafter) signal others

/-- Things elsewhere stay as they are. -/
theorem Enters.append (h : Enters order places signals places') (more : List (κ × Nat)) :
    Enters order (places ++ more) signals (places' ++ more) := by
  cases h with
  | stays same silent => exact .stays (same.append_right more) silent
  | enters phase before after signal others =>
    refine .enters phase ((before.append_right more).trans (List.Perm.of_eq (List.append_assoc ..)))
      ((after.append_right more).trans (List.Perm.of_eq (List.append_assoc ..))) signal ?_
    intro k hk
    exact (others k hk).imp id fun h => ⟨h.1, List.mem_append_left _ h.2⟩

theorem Enters.prepend (h : Enters order places signals places') (more : List (κ × Nat)) :
    Enters order (more ++ places) signals (more ++ places') :=
  (h.append more).perm List.perm_append_comm List.perm_append_comm

theorem Enters.keys (h : Enters order places signals places') :
    (places'.map Prod.fst).Perm (places.map Prod.fst) := by
  cases h with
  | stays same silent => exact same.map _
  | enters phase before after signal others =>
    refine (after.map _).trans (List.Perm.trans ?_ (before.map _).symm)
    simp [List.map_append, List.map_map, Function.comp_def]

/-- The logs after the signals of the step. -/
theorem Enters.logged [DecidableEq τ] (h : Enters order places signals places')
    (hlog : Logged order places log) (hnd : order.Nodup) (hkeys : (places.map Prod.fst).Nodup)
    (hlog' : ∀ k, log' k = (log k).map fun entries => recordAll entries (signals k)) :
    Logged order places' log' := by
  have hkeys' := h.keys
  constructor
  · cases h with
    | stays same silent =>
      intro p hp
      rw [hlog', silent, hlog.entered p (same.mem_iff.mp hp)]
      rfl
    | @enters _ rest _ moved n t phase before after signal others =>
      intro p hp
      rcases List.mem_append.mp (after.mem_iff.mp hp) with hp | hp
      · obtain ⟨k, hk, rfl⟩ := List.mem_map.mp hp
        have hbefore : (k, n) ∈ places :=
          before.mem_iff.mpr (List.mem_append_left _ (List.mem_map_of_mem hk))
        obtain ⟨d, hd⟩ := signal k hk
        rw [hlog', hlog.entered _ hbefore, hd]
        exact congrArg some (record_next hnd phase d)
      · have hbefore : p ∈ places := before.mem_iff.mpr (List.mem_append_right _ hp)
        have hnot : p.1 ∉ moved := by
          intro hk
          have hnd' := (before.map Prod.fst).nodup_iff.mp hkeys
          rw [List.map_append] at hnd'
          refine (List.nodup_append.mp hnd').2.2 p.1 ?_ p.1 (List.mem_map_of_mem hp) rfl
          simpa using hk
        rw [hlog', hlog.entered _ hbefore]
        rcases others p.1 hnot with hs | ⟨hs, hrest⟩
        · rw [hs]
          rfl
        · -- the thing has one place, so it is in the phase already
          have hplace : p.2 = n + 1 := by
            have hpair := List.inj_on_of_nodup_map hkeys hbefore
              (before.mem_iff.mpr (List.mem_append_right _ hrest)) rfl
            rw [hpair]
          rw [hs, hplace]
          exact congrArg some (record_again phase)
  · intro k hk
    rw [hlog', hlog.unknown k fun hc => hk (hkeys'.mem_iff.mpr hc)]
    rfl

/-- A new thing enters the first phase. -/
theorem Logged.arrives [DecidableEq κ] (h : Logged order places log) {k : κ}
    (hk : k ∉ places.map Prod.fst) (hfirst : order[0]? = some t)
    (hp : places'.Perm ((k, 1) :: places))
    (hlog' : ∀ k', log' k' = if k' = k then some [t] else log k') : Logged order places' log' := by
  constructor
  · intro p hmem
    rcases List.mem_cons.mp (hp.mem_iff.mp hmem) with rfl | hmem
    · rw [hlog', if_pos rfl, take_next hfirst]
      rfl
    · have hne : p.1 ≠ k := fun hc => hk (hc ▸ List.mem_map_of_mem hmem)
      rw [hlog', if_neg hne, h.entered p hmem]
  · intro k' hk'
    rw [(hp.map Prod.fst).mem_iff, List.map_cons, List.mem_cons, not_or] at hk'
    rw [hlog', if_neg hk'.1, h.unknown k' hk'.2]

end phases
