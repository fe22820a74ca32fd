import Mathlib.Data.List.Induction
import PolicyDesk.Proofs.Desk.Floor
import PolicyDesk.Proofs.Desk.Sessions

/-!
# Runs and reached desks

What holds along every run of a floor, and of every desk that a run or a session reaches.
-/

namespace PolicyDesk

/-! ## What holds along the runs of a floor

- **Soundness** (`Floor.Sound`, `Floor.sound`): the trace is a ledger of the desk, and each call is
  where its own events say. So an amendment replaces the record that it was made of
  (`Sound.current`).
- **Induction** (`Floor.induction`, `Floor.induction_from`): what holds at the start, or of a run,
  and survives the start of a call and every `Advance` holds of every run, or of every longer
  one. -/

namespace Floor

/-- It is an invariant: it holds of the empty floor and every move keeps it. -/
structure Sound (config : EvaluationConfig Float) (floor : Floor) : Prop where
  ledger : Ledger floor.desk floor.trace
  progress : ∀ {t task}, floor.tasks[t]? = some task →
    Progress config task.visit (floor.own t) task.rest
  tickets : ∀ h ∈ floor.trace, h.ticket < floor.tasks.length

variable {config : EvaluationConfig Float} {floor : Floor} {t : Nat} {task : Task}
  {rest : Script Reply} {desk : Desk} {event : Option Event}

/-! ### The events of a ticket -/

theorem mem_own {event : Event} : event ∈ floor.own t ↔ ⟨t, event⟩ ∈ floor.trace := mem_eventsOf

theorem own_after_self (v : Visit) :
    (floor.after t v rest desk event).own t = floor.own t ++ event.toList := by
  cases event <;> simp [own, eventsOf, after]

theorem own_after_of_ne (v : Visit) {t' : Nat} (h : t' ≠ t) :
    (floor.after t v rest desk event).own t' = floor.own t' := by
  cases event <;> simp [own, eventsOf, after, Ne.symm h]

/-- A ticket that is not given out yet has no events. So a call starts with none. -/
theorem Sound.own_eq_nil (h : floor.Sound config) (ht : floor.tasks.length ≤ t) :
    floor.own t = [] := by
  rw [own, eventsOf, List.map_eq_nil_iff, List.filter_eq_nil_iff]
  intro happening hmem
  have := h.tickets happening hmem
  simp only [decide_eq_true_eq]
  omega

/-! ### The calls after a move -/

theorem start_of_lt (v : Visit) (hlt : t < floor.tasks.length) :
    (floor.start config v).tasks[t]? = floor.tasks[t]? := by
  rw [start, List.getElem?_append_left hlt]

/-- A call after the start of another: it was there before, or it is the one started. The calls
before keep their tickets. -/
theorem task_of_start {v : Visit} (ht : (floor.start config v).tasks[t]? = some task) :
    floor.tasks[t]? = some task ∨
      t = floor.tasks.length ∧ task = ⟨v, v.call.program config⟩ := by
  by_cases hlt : t < floor.tasks.length
  · exact .inl ((start_of_lt v hlt).symm.trans ht)
  · -- It lies beyond the calls that were there, so it is the one that was added.
    have hbound := (List.getElem?_eq_some_iff.mp ht).1
    simp only [start, List.length_append, List.length_singleton] at hbound
    obtain rfl : t = floor.tasks.length := by omega
    rw [start, List.getElem?_concat_length] at ht
    exact .inr ⟨rfl, (Option.some.inj ht).symm⟩

theorem after_self (ht : floor.tasks[t]? = some task) (v : Visit) :
    (floor.after t v rest desk event).tasks[t]? = some ⟨v, rest⟩ :=
  List.getElem?_set_self (List.getElem?_eq_some_iff.mp ht).1

theorem after_of_ne (v : Visit) {t' : Nat} (hne : t' ≠ t) :
    (floor.after t v rest desk event).tasks[t']? = floor.tasks[t']? :=
  List.getElem?_set_ne (Ne.symm hne)

/-! ### Soundness -/

theorem Sound.empty : Sound config .empty where
  ledger := .empty
  progress h := by simp [Floor.empty] at h
  tickets h hmem := by simp [Floor.empty] at hmem

theorem Sound.start (h : floor.Sound config) (v : Visit) : (floor.start config v).Sound config where
  ledger := h.ledger
  progress {t task} ht := by
    obtain hold | ⟨rfl, rfl⟩ := task_of_start ht
    · exact h.progress hold
    · have hown : (floor.start config v).own floor.tasks.length = [] :=
        h.own_eq_nil (Nat.le_refl _)
      rw [hown]
      show Progress config v [] (v.call.program config)
      rw [Call.program_eq_script]
      exact .fresh
  tickets happening hmem := by
    have := h.tickets happening hmem
    simp only [Floor.start, List.length_append]
    omega

theorem Sound.after (h : floor.Sound config) (ht : floor.tasks[t]? = some task)
    (ha : Advance config task.visit floor.desk (floor.own t) rest desk event) :
    (floor.after t task.visit rest desk event).Sound config where
  ledger := h.ledger.step t ha.happens
  progress {t' task'} ht' := by
    by_cases hne : t' = t
    · subst hne
      rw [after_self ht] at ht'
      cases ht'
      rw [own_after_self]
      exact ha.progress
    · rw [after_of_ne _ hne] at ht'
      rw [own_after_of_ne _ hne]
      exact h.progress ht'
  tickets happening hmem := by
    rw [Floor.after, List.length_set]
    obtain hmem | hmem := List.mem_append.mp hmem
    · exact h.tickets happening hmem
    · obtain ⟨e, he⟩ := Option.mem_toList.mp hmem |> Option.map_eq_some_iff.mp
      obtain ⟨-, rfl⟩ := he
      exact (List.getElem?_eq_some_iff.mp ht).1

/-- The step of a call of a sound floor. A call that has not ended always has a step to take. -/
private theorem Sound.advance_of_task (h : floor.Sound config) (ht : floor.tasks[t]? = some task)
    (hopen : task.reply? = none) :
    ∃ rest desk event, Advance config task.visit floor.desk (floor.own t) rest desk event ∧
      floor.advance t = floor.after t task.visit rest desk event := by
  have hthere (record : Stored) (hmem : .read record ∈ floor.own t) :
      (floor.desk.stored? record.id).isSome := h.ledger.there_of_read (mem_own.mp hmem)
  refine ⟨_, _, _, (h.progress ht).advance (Task.reply?_eq_none.mp hopen) h.ledger.keyed hthere, ?_⟩
  rw [Floor.advance, ht]

/-- A ticket without a call makes no step. -/
theorem advance_of_none (ht : floor.tasks[t]? = none) : floor.advance t = floor := by
  rw [Floor.advance, ht]

/-- A call that has ended makes no step. Its reply stays what it is. -/
private theorem advance_of_ended (ht : floor.tasks[t]? = some task) {reply : Reply}
    (hended : task.reply? = some reply) : floor.advance t = floor := by
  obtain ⟨v, rest⟩ := task
  cases rest with
  | step op next => cases hended
  | done reply =>
    rw [Floor.advance, ht]
    obtain ⟨hlt, heq⟩ := List.getElem?_eq_some_iff.mp ht
    have hset : floor.tasks.set t ⟨v, .done reply⟩ = floor.tasks := by
      rw [← heq]
      exact List.set_getElem_self hlt
    simp only [Script.turn_done, after, hset]
    simp

/-- What a move does to a sound floor. The first case takes in the moves that come to nothing. -/
theorem Sound.step_cases (h : floor.Sound config) (move : Move) :
    floor.step config move = floor ∨ (∃ v, floor.step config move = floor.start config v) ∨
    ∃ t task rest desk event, floor.tasks[t]? = some task ∧ task.reply? = none ∧
      Advance config task.visit floor.desk (floor.own t) rest desk event ∧
      floor.step config move = floor.after t task.visit rest desk event := by
  cases move with
  | start v => exact .inr (.inl ⟨v, rfl⟩)
  | advance t =>
    cases ht : floor.tasks[t]? with
    | none => exact .inl (advance_of_none ht)
    | some task =>
      cases hr : task.reply? with
      | some reply => exact .inl (advance_of_ended ht hr)
      | none =>
        obtain ⟨rest, desk, event, ha, heq⟩ := h.advance_of_task ht hr
        exact .inr (.inr ⟨t, task, rest, desk, event, ht, hr, ha, heq⟩)

/-- **Soundness.** However the moves follow each other, the three parts hold together. -/
theorem sound (moves : List Move) : (run config moves).Sound config := by
  induction moves using List.reverseRecOn with
  | nil => exact .empty
  | append_singleton moves move ih =>
    rw [run_append_one]
    obtain heq | ⟨v, heq⟩ | ⟨t, task, rest, desk, event, ht, -, ha, heq⟩ := ih.step_cases move
    · rwa [heq]
    · rw [heq]
      exact ih.start v
    · rw [heq]
      exact ih.after ht ha

/-- **No update is lost.** The record that an amendment replaces is the one that it was made of.
This is where the bound on commits is needed: a revision that came round again would be taken for
the old one. -/
theorem Sound.current (h : floor.Sound config) (hfew : ∀ id, commitsOn id floor.trace ≤ UInt64.size)
    {c : Call} {a : Amendment} (hown : floor.own t = a.before) (ha : Amending config c a)
    {desk' : Desk} (hu : floor.desk.update a.changed a.source.revision = .ok desk') :
    floor.desk.stored? a.source.id = some a.source := by
  have hread : .read a.source ∈ floor.own t := by simp [hown, Amendment.before]
  obtain ⟨pre, post, hsplit⟩ := List.append_of_mem (mem_own.mp hread)
  obtain ⟨found, hfound, hrev⟩ := Desk.current_of_update hu
  rw [ha.amends.id_eq] at hfound
  rw [hfound, (h.ledger.unchanged hsplit (hfew _) hfound hrev).1]

/-! ### Steps of a call -/

theorem tasks_of_advance (ht : floor.tasks[t]? = some task) :
    (floor.advance t).tasks[t]? =
      some ⟨task.visit, (task.rest.turn task.visit.carrier floor.desk).rest⟩ := by
  rw [advance, ht]
  exact after_self ht _

theorem tasks_of_advance_ne {t' : Nat} (hne : t' ≠ t) :
    (floor.advance t).tasks[t']? = floor.tasks[t']? := by
  unfold advance
  cases floor.tasks[t]? with
  | none => rfl
  | some task => exact after_of_ne _ hne

/-- A call that finds its record at another revision has ended as stale. The desk stays as it is,
and so do the other calls. -/
theorem advance_of_stale (ht : floor.tasks[t]? = some task) {a : Amendment}
    (hrest : task.rest = task.visit.call.write a)
    (hstale : floor.desk.update a.changed a.source.revision = .error .stale) :
    floor.advance t = floor.after t task.visit (.done (task.visit.call.failed .stale)) floor.desk
      (some (.stale a.changed a.source.revision)) := by
  rw [advance, ht]
  simp only
  rw [hrest, Call.write, Script.turn_step (DeskOp.apply_update_error hstale) (by simp)]
  rfl

/-! ### Induction -/

/-- What holds of a run and survives every step holds of every longer run. The property may speak of
the trace as well as of the desk. -/
theorem induction_from {P : Floor → Prop} (moves : List Move) (begun : P (run config moves))
    (start : ∀ floor v, floor.Sound config → P floor → P (floor.start config v))
    (after : ∀ floor t task rest desk event, floor.Sound config → P floor →
      floor.tasks[t]? = some task → task.reply? = none →
      Advance config task.visit floor.desk (floor.own t) rest desk event →
      P (floor.after t task.visit rest desk event))
    (more : List Move) : P (run config (moves ++ more)) := by
  induction more using List.reverseRecOn with
  | nil => rwa [List.append_nil]
  | append_singleton more move ih =>
    rw [← List.append_assoc, run_append_one]
    have hsound : (run config (moves ++ more)).Sound config := sound (moves ++ more)
    obtain heq | ⟨v, heq⟩ | ⟨t, task, rest, desk, event, ht, hr, ha, heq⟩ := hsound.step_cases move
    · rwa [heq]
    · rw [heq]
      exact start _ v hsound ih
    · rw [heq]
      exact after _ t task rest desk event hsound ih ht hr ha

theorem induction {P : Floor → Prop} (empty : P .empty)
    (start : ∀ floor v, floor.Sound config → P floor → P (floor.start config v))
    (after : ∀ floor t task rest desk event, floor.Sound config → P floor →
      floor.tasks[t]? = some task → task.reply? = none →
      Advance config task.visit floor.desk (floor.own t) rest desk event →
      P (floor.after t task.visit rest desk event))
    (moves : List Move) : P (run config moves) :=
  induction_from [] empty start after moves

/-- What was within bounds after a step was so before. Counts of commits never go down along a run.
-/
theorem few_of_after {v : Visit} {bound : Nat}
    (h : ∀ id, commitsOn id (floor.after t v rest desk event).trace ≤ bound) (id : RecordId) :
    commitsOn id floor.trace ≤ bound := by
  have := h id
  rw [after, commitsOn_append] at this
  omega

end Floor

/-! ## The records that calls can make

A desk is reached by calls that are served one after the other, or by calls whose steps follow each
other in any order (`Desk.Reached`).

- **Steps** (`Happens.stored_cases`, `Happens.stored_of_other`): a step changes no record but the
  one that it stores.
- **Writes** (`Advance.wrote_cases`): a record that a step stores was opened by its call, or is an
  amendment of a record that the call had read.
- **Records** (`Desk.Reached.record`, `Desk.Reached.file`): what holds of every record that is
  opened, and is kept by every amendment, holds of every record of a desk that is reached; for a
  file the amendments are evaluations and decisions. -/

namespace Happens

variable {desk desk' : Desk} {event : Option Event} {id : RecordId} {record : Stored}

/-- A record that is there after a step was there before it, or the step has stored it. A step
stores one record at most. -/
theorem stored_cases (h : Happens desk desk' event) (hs : desk'.stored? id = some record) :
    desk.stored? id = some record ∨ ∃ base, event = some (.wrote record base) := by
  cases h with
  | nothing hsame => exact .inl (by rw [← hsame, hs])
  | read _ _ hsame => exact .inl (by rw [← hsame, hs])
  | referred _ hsame => exact .inl (by rw [← hsame, hs])
  | stale _ _ _ hsame => exact .inl (by rw [← hsame, hs])
  | wrote found base _ _ hstore =>
    rw [hstore] at hs
    split at hs
    · cases hs
      exact .inr ⟨base, rfl⟩
    · exact .inl hs

/-- A step that stores no record of an id leaves what is there. It may store another record. -/
theorem stored_of_other (h : Happens desk desk' event)
    (hother : ∀ record base, event = some (.wrote record base) → record.id ≠ id) :
    desk'.stored? id = desk.stored? id := by
  cases h with
  | nothing hsame => exact hsame id
  | read _ _ hsame => exact hsame id
  | referred _ hsame => exact hsame id
  | stale _ _ _ hsame => exact hsame id
  | wrote found base _ _ hstore => rw [hstore, if_neg (hother found base rfl).symm]

/-- A record is stored in the place of the one that was there. The base of a new record is `none`.
-/
theorem base_of_wrote {base : Option UInt64} (h : Happens desk desk' (some (.wrote record base))) :
    (desk.stored? record.id).map (·.revision) = base := by
  cases h with
  | wrote _ _ hbase _ _ => exact hbase

/-- A record that is read is there. It is read as it is stored at that moment. -/
theorem there_of_read (h : Happens desk desk' (some (.read record))) :
    desk.stored? record.id = some record := by
  cases h with
  | read _ hs _ => exact hs

end Happens

/-- A step stores a record that its call opens, or amends one that its call has read. What was read
may have been replaced since; then the write would not have come through. -/
theorem Advance.wrote_cases {config : EvaluationConfig Float} {v : Visit} {desk desk' : Desk}
    {own : List Event} {rest : Script Reply} {record : Stored} {base : Option UInt64}
    (h : Advance config v desk own rest desk' (some (.wrote record base))) :
    base = none ∧ v.call.Opens config record ∨
      ∃ a, Amends config v.call a ∧ .read a.source ∈ own ∧ record = a.changed ∧
        base = some a.source.revision := by
  have hmem : .wrote record base ∈ own ++ (some (Event.wrote record base)).toList := by simp
  obtain ⟨-, hbase, hopens⟩ | ⟨a, ha, hown, hchanged, hbase⟩ := h.progress.commit_cases hmem
  · exact .inl ⟨hbase, hopens⟩
  · rw [Option.toList_some] at hown
    rw [(List.append_inj' hown rfl).1]
    exact .inr ⟨a, ha.amends, by simp [Amendment.before], hchanged, hbase⟩

/-! ### Floors -/

namespace Floor

variable {config : EvaluationConfig Float} {P : Stored → Prop}

/-- Every record that is there, or was read, has a property. What was read has to be followed too,
since it may be written back in its amended form. -/
structure Throughout (P : Stored → Prop) (floor : Floor) : Prop where
  stored : ∀ id record, floor.desk.stored? id = some record → P record
  read : ∀ t record, .read record ∈ floor.own t → P record

theorem Throughout.after {floor : Floor} {t : Nat} {v : Visit} {rest : Script Reply}
    {desk : Desk} {event : Option Event} (h : floor.Throughout P)
    (opened : ∀ c record, Call.Opens config c record → P record)
    (amended : ∀ c a, Amends config c a → P a.source → P a.changed)
    (ha : Advance config v floor.desk (floor.own t) rest desk event) :
    (floor.after t v rest desk event).Throughout P where
  stored id record hs := by
    obtain hs | ⟨base, rfl⟩ := ha.happens.stored_cases hs
    · exact h.stored id record hs
    · -- A record that the step stores was opened just now, or is an amendment of one that was read.
      obtain ⟨-, hopens⟩ | ⟨a, ham, hread, rfl, -⟩ := ha.wrote_cases
      · exact opened v.call record hopens
      · exact amended v.call a ham (h.read t a.source hread)
  read t' record hread := by
    by_cases hne : t' = t
    · subst hne
      rw [own_after_self, List.mem_append, Option.mem_toList] at hread
      obtain hread | rfl := hread
      · exact h.read t' record hread
      · exact h.stored _ record ha.happens.there_of_read
    · rw [own_after_of_ne v hne] at hread
      exact h.read t' record hread

theorem throughout (opened : ∀ c record, Call.Opens config c record → P record)
    (amended : ∀ c a, Amends config c a → P a.source → P a.changed) (moves : List Move) :
    (run config moves).Throughout P := by
  refine induction (P := Throughout P) ?_ ?_ ?_ moves
  · exact ⟨fun id record hs => by simp [empty] at hs,
      fun t record hread => by simp [empty, own, eventsOf] at hread⟩
  · exact fun floor v _ h => ⟨h.stored, h.read⟩
  · exact fun floor t task rest desk event _ h _ _ ha => h.after opened amended ha

end Floor

/-! ### Desks -/

/-- The desk is reached by calls served one after the other, or by calls whose steps follow each
other in any order. The first way is a case of the second, but sessions are easier to speak of. -/
inductive Desk.Reached (config : EvaluationConfig Float) : Desk → Prop
  | served (visits : List Visit) : Reached config (Session.run config visits).desk
  | stepped (moves : List Move) : Reached config (Floor.run config moves).desk

/-- **Records.** What holds of the records that are opened, and is kept by the amendments, holds of
every record. The property may mention the record alone and not the desk around it. -/
theorem Desk.Reached.record {config : EvaluationConfig Float} {P : Stored → Prop} {desk : Desk}
    (h : desk.Reached config) (opened : ∀ c record, Call.Opens config c record → P record)
    (amended : ∀ c a, Amends config c a → P a.source → P a.changed) {id : RecordId}
    {record : Stored} (hs : desk.stored? id = some record) : P record := by
  cases h with
  | stepped moves => exact (Floor.throughout opened amended moves).stored id record hs
  | served visits =>
    -- The property is of all records at once, as an amendment turns one into another.
    revert id record
    refine Session.induction (P := fun s => ∀ {id record}, s.desk.stored? id = some record →
      P record) ?_ ?_ visits
    · exact fun {id record} hs => by simp [Session.empty] at hs
    · intro s v reply desk' _ ih he id record hfound
      obtain hfound | hopens | ⟨a, ha, hs, rfl⟩ := he.found_after hfound
      · exact ih hfound
      · exact opened v.call record hopens
      · exact amended v.call a ha (ih hs)

/-- What holds of a file, said of a record. It asks nothing of claims. -/
def Stored.OfFile (P : UnderwritingFile → Prop) : Stored → Prop
  | .file f => P f
  | .claim _ => True

/-- What holds of the files that are opened, and is kept by evaluations and decisions, holds of
every file. Each decision is one that was proposed and accepted, so the rules on proposals can be
used. -/
theorem Desk.Reached.file {config : EvaluationConfig Float} {P : UnderwritingFile → Prop}
    {desk : Desk} (h : desk.Reached config)
    (opened : ∀ (c : Call) a, c.assessment? config = some a → P (.ofAssessment a))
    (evaluated : ∀ f, P f → P (f.withOutcome (config.evaluate f.assessment)))
    (decided : ∀ f p decidedBy now d, Decision.ofProposal p decidedBy now = .ok d → P f →
      P (f.withDecision d))
    {k : PolicyId} {f : UnderwritingFile} (hf : desk.files.find? k = some f) : P f := by
  refine h.record (P := Stored.OfFile P) ?_ ?_ (Desk.stored?_file_eq_some.mpr hf)
  · rintro c record (⟨a, ha⟩ | ⟨request, n, -⟩)
    · exact opened c a ha
    · trivial
  · rintro c a ha hsource
    cases ha with
    | evaluation k f _ _ => exact evaluated f hsource
    | decision k p decidedBy now f d hd _ _ => exact decided f p decidedBy now d hd hsource
    | move _ _ _ _ _ => trivial

end PolicyDesk
