-- The positions of the key-value cache: what the engines send for a request writes
-- each position once, in order, and into blocks that the request has on the GPU.
import RecomputeOrMigrate.DecodingPipeline
import RecomputeOrMigrate.EnginesServe

open calls runs

namespace distserve

namespace BlockManager

variable {m₀ m m' : BlockManager} {working working' rs : List Request}

/-- The requests `working` are with the workers: what was sent last for each of them is
its table on the GPU. Since the action began in `m₀`, at most one call was sent for a
request, and then it is with the workers. -/
structure Sending (m₀ m : BlockManager) (working : List Request) : Prop where
  on_gpu : ∀ q ∈ working, ∃ x, (m.sends q.request_id).getLast? = some x ∧
    m.owned q.request_id = some (.GPU, x.block_table)
  once : ∀ r, m.sends r = m₀.sends r ∨
    ∃ x, m.sends r = m₀.sends r ++ [x] ∧ r ∈ working.map (·.request_id)

/-- A new action begins. -/
theorem Sending.begins (h : Sending m₀ m working) : Sending m m working :=
  ⟨h.on_gpu, fun _ => Or.inl rfl⟩

/-- Requests may come back, but none goes to the workers. -/
theorem Sending.keeps (h : Sending m₀ m working) (hsends : m'.sends = m.sends)
    (hsub : working' ⊆ working) (hids : m₀ = m ∨ working' = working)
    (howned : ∀ q ∈ working', m'.owned q.request_id = m.owned q.request_id) :
    Sending m₀ m' working' where
  on_gpu q hq := by
    rw [hsends, howned q hq]
    exact h.on_gpu q (hsub hq)
  once r := by
    rw [hsends]
    rcases hids with rfl | rfl
    · exact Or.inl rfl
    · exact h.once r

/-- The requests `rs` go to the workers. -/
theorem Sending.sends_to (h : Sending m m working) (hnd : (rs.map (·.request_id)).Nodup)
    (hsends : ∀ r, m'.sends r = m.sends r ++ Serving.sentFor rs m'.tableOf r)
    (hmem : ∀ q, q ∈ working' ↔ q ∈ working ∨ q ∈ rs)
    (hold : ∀ q ∈ working, q.request_id ∉ rs.map (·.request_id) ∧
      m'.owned q.request_id = m.owned q.request_id)
    (hnew : ∀ q ∈ rs, m'.owned q.request_id = some (.GPU, m'.tableOf q.request_id)) :
    Sending m m' working' where
  on_gpu q hq := by
    rcases (hmem q).mp hq with hq | hq
    · rw [hsends, Serving.sentFor_of_notMem (hold q hq).1, List.append_nil, (hold q hq).2]
      exact h.on_gpu q hq
    · rw [hsends, Serving.sentFor_of_mem hnd hq, hnew q hq]
      exact ⟨_, List.getLast?_concat, rfl⟩
  once r := by
    by_cases hr : r ∈ rs.map (·.request_id)
    · obtain ⟨q, hq, rfl⟩ := List.mem_map.mp hr
      refine Or.inr ⟨q.sentWith (m'.tableOf q.request_id), ?_,
        List.mem_map_of_mem ((hmem q).mpr (Or.inr hq))⟩
      rw [hsends, Serving.sentFor_of_mem hnd hq]
    · exact Or.inl (by rw [hsends, Serving.sentFor_of_notMem hr, List.append_nil])

/-- What was sent since the action began is a table on the GPU. -/
theorem Sending.sent (h : Sending m₀ m working) (r : RequestId) : m.sends r = m₀.sends r ∨
    ∃ x, m.sends r = m₀.sends r ++ [x] ∧ m.owned r = some (.GPU, x.block_table) := by
  apply (h.once r).imp id
  rintro ⟨x, hx, hr⟩
  obtain ⟨q, hq, rfl⟩ := List.mem_map.mp hr
  obtain ⟨y, hy, howned⟩ := h.on_gpu q hq
  rw [hx, List.getLast?_concat] at hy
  cases hy
  exact ⟨x, hx, howned⟩

end BlockManager

/-! ## The context engine -/

namespace ContextStageLLMEngine

open BlockManager

variable {e e' first : ContextStageLLMEngine} {decode : Tokenizer} {a : Action}
  {cs : List Callback}

theorem Cleared.sending {r : RequestId} {m₀ : BlockManager} (h : Cleared e r e') (hs : Sound e)
    (hun : r ∈ e.scheduler.unaccepted_queue.map (·.request_id))
    (hw : Sending m₀ e.block_manager e.in_flight) :
    Sending m₀ e'.block_manager e'.in_flight := by
  have hin : e'.in_flight = e.in_flight := by
    rw [h.same]
    rfl
  obtain ⟨m, hf, hm⟩ := h.manager
  apply hw.keeps h.sends (by rw [hin]; exact List.Subset.refl _) (Or.inr hin)
  intro q hq
  rw [hm]
  apply hf.others _
  intro hc
  have hnd := hs.nodup
  unfold present at hnd
  rw [List.append_assoc, List.map_append, List.map_append] at hnd
  rw [hin] at hq
  refine List.disjoint_left.mp (List.nodup_append'.mp hnd.of_append_right).2.2
    (List.mem_map_of_mem hq) ?_
  rw [List.mem_singleton.mp hc]
  exact hun

theorem Part.sending (h : Part decode a first e cs e')
    (hw : Sending first.block_manager e.block_manager e.in_flight) :
    Sending first.block_manager e'.block_manager e'.in_flight := by
  cases h with
  | @pushes _ _ now moved hs hp h =>
    have hnd := hs.nodup
    rw [present, h.waiting, List.append_assoc, List.append_assoc, List.map_append,
      List.nodup_append'] at hnd
    refine hw.sends_to hnd.1 h.sends (fun q => by rw [h.in_flight, List.mem_append])
      (fun q hq => ?_) fun q hq => ?_
    · have hout : q.request_id ∉ moved.map (·.request_id) := fun hc =>
        List.disjoint_left.mp hnd.2.2 hc (List.mem_map_of_mem
          (List.mem_append_right _ (List.mem_append_left _ hq)))
      obtain ⟨m, hal, hm⟩ := h.manager
      exact ⟨hout, by rw [hm, owned_sendStep, hal.others _ hout]⟩
    · refine h.accounts.owned_gpu (List.mem_map_of_mem ?_)
      rw [h.in_flight]
      exact List.mem_append_left _ (List.mem_append_right _ hq)
  | checks hs h =>
    have hb : e'.block_manager = e.block_manager := by
      rw [block_manager, h.scheduler]
      rfl
    rw [h.in_flight, hb]
    exact hw
  | @takes _ _ batch rest ids hs hp hb h =>
    have hin : e.in_flight = batch.requests ++ e'.in_flight := by
      unfold ContextStageLLMEngine.in_flight
      rw [hb, h.pipeline, hb]
      rfl
    have hnd := hs.nodup
    have hparts := BatchedRequests.ids_of_grown batch.requests (decode.decode_tokens ids) ids
    unfold present at hnd
    rw [List.append_assoc, List.map_append, List.map_append] at hnd
    replace hnd := hnd.of_append_right.of_append_left
    change (e.in_flight.map (·.request_id)).Nodup at hnd
    rw [hin, List.map_append, List.nodup_append'] at hnd
    refine hw.keeps h.sends (fun q hq => by rw [hin]; exact List.mem_append_right _ hq)
      (Or.inl rfl) fun q hq => h.others _ fun hc => ?_
    exact List.disjoint_left.mp hnd.2.2
      (hparts.mem_iff.mp (List.mem_append_left _ hc)) (List.mem_map_of_mem hq)
  | adds hs hnew ht hf => exact hw
  | gets hs hb => exact hw
  | clears hs hun h => exact h.sending hs hun hw

end ContextStageLLMEngine

/-! ## The decoding engine -/

namespace DecodingStageLLMEngine

open BlockManager DecodingStageFCFSScheduler

variable {e e' first : DecodingStageLLMEngine} {decode : Tokenizer} {a : Action}
  {cs : List Callback}

/-- A request that is with the workers is in a batch of the pipeline. -/
theorem mem_in_flight (hs : Core e) {q : Request} (hq : q ∈ e.in_flight) :
    ∃ i ∈ e.batches_in_pipeline, q ∈ (e.scheduler.batch i).requests := by
  obtain ⟨b, hb, hq⟩ := List.mem_flatMap.mp hq
  obtain ⟨i, hi, rfl⟩ := List.getElem_of_mem hb
  rw [← batch_eq hi] at hq
  unfold sentOf at hq
  split at hq
  · cases hq
  · next hstart => exact ⟨i, hs.started i hstart, hq⟩

theorem in_flight_sublist (e : DecodingStageLLMEngine) :
    e.in_flight.Sublist e.scheduler.batched := by
  unfold in_flight batched
  induction e.scheduler.batch_queues with
  | nil => exact List.Sublist.refl _
  | cons b bs ih =>
    refine List.Sublist.append ?_ ih
    unfold sentOf
    split
    · exact List.nil_sublist _
    · exact List.Sublist.refl _

theorem in_flight_nodup (hs : Core e) : (e.in_flight.map (·.request_id)).Nodup :=
  hs.batched_nodup.sublist (e.in_flight_sublist.map _)

theorem Part.sending (h : Part decode a first e cs e')
    (hw : Sending first.block_manager e.block_manager e.in_flight) :
    Sending first.block_manager e'.block_manager e'.in_flight := by
  cases h with
  | @pushes _ _ now s' m hs hp h =>
    have hperm := (h.serves hs hp).2
    have hnd := (hperm.map (·.request_id)).nodup_iff.mp (in_flight_nodup (h.core hs hp))
    rw [List.map_append, List.nodup_append'] at hnd
    have hm : e'.block_manager = m.sendStep (s'.batch s'.cur).requests := by
      unfold block_manager
      rw [h.scheduler]
    refine hw.sends_to hnd.2.1 h.sends (fun q => by rw [hperm.mem_iff, List.mem_append])
      (fun q hq => ⟨?_, ?_⟩) fun q hq => ?_
    · exact List.disjoint_left.mp hnd.2.2 (List.mem_map_of_mem hq)
    · obtain ⟨i, hi, hqi⟩ := mem_in_flight hs.toCore hq
      refine h.owned_ne hs ?_ hqi
      rintro rfl
      exact h.cur_notMem hs hp hi
    · rw [hm, owned_sendStep, tableOf_sendStep]
      exact h.accounts.owned_gpu
        (List.mem_map_of_mem (List.mem_append_right _ (mem_batched_of_mem hq)))
  | checks hs hp h hs' =>
    rw [h.same]
    exact hw
  | @takes _ _ i m ids hs hp h =>
    have hperm := (h.serves hs hp).1
    have hnd := (hperm.map (·.request_id)).nodup_iff.mp (in_flight_nodup hs.toCore)
    have hparts := BatchedRequests.ids_of_grown (e.scheduler.batch i).requests
      (decode.decode_tokens ids) ids
    rw [List.map_append, List.nodup_append'] at hnd
    refine hw.keeps h.sends (fun q hq => hperm.mem_iff.mpr (List.mem_append_right _ hq))
      (Or.inl rfl) fun q hq => ?_
    rw [h.same]
    apply h.freed.others _
    intro hc
    exact List.disjoint_left.mp hnd.2.2
      (hparts.mem_iff.mp (List.mem_append_left _ hc)) (List.mem_map_of_mem hq)
  | @accepts _ _ _ _ mr m hs hp h =>
    have hin : e'.in_flight = e.in_flight := by
      rw [h.same]
      rfl
    apply hw.keeps h.sends (by rw [hin]; exact List.Subset.refl _) (Or.inr hin)
    intro q hq
    rw [h.same]
    refine h.allocated.others _ fun hc => h.new ?_
    have hid : q.request_id = mr.req.request_id := List.mem_singleton.mp hc
    rw [hin] at hq
    rw [← hid]
    exact List.mem_map_of_mem (by simp [e.in_flight_sublist.subset hq])
  | ends hs hp => exact hw
  | adds hs hnew hh => exact hw

end DecodingStageLLMEngine

/-! ## Both engines -/

namespace Engines

open BlockManager

variable {s s' first : Engines} {decode : Tokenizer} {a : Action} {cs : List Callback}

/-- Both engines send tables on the GPU. -/
def Sending (first s : Engines) : Prop :=
  first.context_engine.block_manager.Sending s.context_engine.block_manager
      s.context_engine.in_flight ∧
    first.decoding_engine.block_manager.Sending s.decoding_engine.block_manager
      s.decoding_engine.in_flight

theorem Part.sending (h : Part decode a first s cs s') (hw : Sending first s) :
    Sending first s' := by
  cases h with
  | adds ha hs hnew ht hf => exact hw
  | context ha hans h => exact ⟨h.sending hw.1, hw.2⟩
  | bridges ha hs hb => exact hw
  | decoding ha hans h hq => exact ⟨hw.1, h.sending hw.2⟩
  | migrates hs hp hcs hun hc => exact ⟨hc.sending hcs hun hw.1, hw.2⟩

/-- Each action keeps the invariant. -/
theorem act_sending (hs : Sound s) (hw : Sending s s)
    (hx : act decode s a = some (.ok (s', cs))) : Sending s s' :=
  Emits.invariant (I := Sending s) (fun _ _ _ hw hp => Part.sending hp hw)
    ((act_gives hs hx).of_ok rfl).2 hw

theorem sending_create (c : EnginesConfig) : Sending (create c) (create c) := by
  have hsent : (create c).decoding_engine.in_flight = [] := batches_create c _ rfl
  refine ⟨⟨fun q hq => ?_, fun _ => Or.inl rfl⟩, ⟨fun q hq => ?_, fun _ => Or.inl rfl⟩⟩
  · cases hq
  · rw [hsent] at hq
    cases hq

theorem sending_of_reaches {c : EnginesConfig} (h : Reaches (step decode) (create c) s) :
    Sending s s := by
  have hsound : runs.Sound (step decode) (fun s => Sound s ∧ Sending s s)
      DecodingStageFCFSScheduler.CpuShortage := by
    apply sound_withoutOutput
    intro s a x hI hx
    cases x with
    | ok r =>
      have hw := act_sending hI.1 hI.2 hx
      exact ⟨((act_gives hI.1 hx).of_ok rfl).1, hw.1.begins, hw.2.begins⟩
    | error err => exact ((act_gives hI.1 hx).of_error rfl).2.2
  exact (hsound.invariant ⟨sound_create c, sending_create c⟩ h).2

/-- In every state of every run, what was sent for a request are the positions of its text
from 0 on, each of them once and in order, with the tokens that stand there, and they fit
the blocks that were sent with them. An action sends at most once for a request, with the
blocks that the request then has on the GPU. -/
theorem kv_positions_are_written_once (c : EnginesConfig) (decode : Tokenizer) (s : Engines)
    (h : Reaches (step decode) (create c) s) :
    (∀ q₀ ∈ s.added, ∃ q ∈ s.requests, q.origin = q₀.origin ∧ ∃ n,
      (s.sends q.request_id).flatMap Sent.positions = List.range n ∧
      (s.sends q.request_id).flatMap (·.input_tokens) =
        (q.prompt_token_ids ++ q.generated_token_ids).take n) ∧
    (∀ r, ∀ x ∈ s.sends r, x.first_token_index + x.input_tokens.length ≤
      x.block_table.length * c.cache_config.block_size) ∧
    ∀ a s', step decode s a = some (.ok s') → ∀ r,
      (s'.context_engine.block_manager.sends r = s.context_engine.block_manager.sends r ∨
        ∃ x, s'.context_engine.block_manager.sends r =
            s.context_engine.block_manager.sends r ++ [x] ∧
          s'.context_engine.block_manager.owned r = some (.GPU, x.block_table)) ∧
      (s'.decoding_engine.block_manager.sends r = s.decoding_engine.block_manager.sends r ∨
        ∃ x, s'.decoding_engine.block_manager.sends r =
            s.decoding_engine.block_manager.sends r ++ [x] ∧
          s'.decoding_engine.block_manager.owned r = some (.GPU, x.block_table)) := by
  obtain ⟨outputs, hv⟩ := served_of_reaches h
  refine ⟨fun q₀ hq₀ => ?_, hv.room, fun a s' ha r => ?_⟩
  · obtain ⟨q, hq, horigin⟩ := hv.exists_request hq₀
    obtain ⟨n, hn⟩ := hv.covers hq
    rw [requests_serving, Multiset.mem_coe] at hq
    exact ⟨q, hq, horigin, n, hn.positions, hn.tokens⟩
  · obtain ⟨cs, ha⟩ := withoutOutput_eq_ok.mp ha
    have hw := act_sending (sound_of_reaches h) (sending_of_reaches h) ha
    exact ⟨hw.1.sent r, hw.2.sent r⟩

/-- A request with the prompt `[1, 2, 3]` and the tokens 4 and 5. The context stage sent the
prompt, and the decoding stage sent the token 4. -/
theorem the_prompt_and_one_token_are_written : ∃ s : Engines,
    ((s.sends 0).map Sent.positions = [[0, 1, 2], [3]] ∧
      (s.sends 0).map (·.input_tokens) = [[1, 2, 3], [4]]) ∧
      ∀ x ∈ s.sends 0,
        x.first_token_index + x.input_tokens.length ≤ x.block_table.length * 2 := by
  obtain ⟨s, hr, hs⟩ := reaches_of_any (m := step fun _ => none) (s := create smallConfig)
    [.add_request (smallRequest 0), .context_begin_step 0, .context_batch_returns [4],
      .bridge_get, .decoding_begin_step 0, .decoding_wake, .migration_ends,
      .decoding_begin_step 1, .decoding_begin_step 2, .decoding_wake, .decoding_batch_returns [5]]
    (fun s : Engines => decide ((s.sends 0).map Sent.positions = [[0, 1, 2], [3]] ∧
      (s.sends 0).map (·.input_tokens) = [[1, 2, 3], [4]]))
    (by decide +kernel)
  exact ⟨s, of_decide_eq_true hs, (kv_positions_are_written_once smallConfig _ s hr).2.1 0⟩

end Engines

end distserve
