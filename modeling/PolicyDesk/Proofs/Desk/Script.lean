import PolicyDesk.Proofs.Desk.Records

/-!
# Calls and their steps

The operations of the desk as calls, the sessions of calls, and the steps of which a call is made.
-/

namespace PolicyDesk

/-! ## Calls and sessions

A `Call` names an operation of the desk with its arguments and the reading of the clock that it
takes; `Call.program` is the operation itself, for any store and any carrier.

- A `Visit` is a call together with what the carrier answers if it is asked.
- `Visit.serve` runs a visit on a desk to its end. A `Session` serves visits one after the other and
  keeps an account of them: every visit, its reply and the desk after it. -/

/-- An operation of the desk with all that it is given. -/
inductive Call
  | submit (input : AssessmentInput Float) (now : Instant)
  | score (request : ScoreRequest Float) (now : Instant)
  | evaluate (policyId : PolicyId)
  | decide (policyId : PolicyId) (proposal : ProposedDecision) (decidedBy : String) (now : Instant)
  | getFile (policyId : PolicyId)
  | queue (limit : Nat)
  | openClaim (request : OpenClaim)
  | transition (claimId : ClaimId) (request : ClaimTransition) (now : Instant)
  | getClaim (claimId : ClaimId)

/-- The result of a call. A failure is a result like any other, so every call has a reply. -/
inductive Reply
  | file (result : Except UnderwritingError UnderwritingFile)
  | outcome (result : Except UnderwritingError (EvaluationOutcome Float))
  | files (result : Except UnderwritingError (List UnderwritingFile))
  | claim (result : Except ClaimError Claim)

/-- The call has done what it was for. Of a call that writes it says that the record was stored. -/
def Reply.isOk : Reply → Bool
  | file result => result.isOk
  | outcome result => result.isOk
  | files result => result.isOk
  | claim result => result.isOk

@[simp] theorem Reply.isOk_file (f : UnderwritingFile) : (Reply.file (.ok f)).isOk = true := rfl

@[simp] theorem Reply.isOk_outcome (outcome : EvaluationOutcome Float) :
    (Reply.outcome (.ok outcome)).isOk = true := rfl

namespace Call

/-- A call that only reads. It can be left out of a session without changing what follows. -/
def isQuery : Call → Bool
  | getFile _ => true
  | queue _ => true
  | getClaim _ => true
  | _ => false

/-- The assessment that a call opens a file for. A call that is refused by its input has none. -/
def assessment? (config : EvaluationConfig Float) : Call → Option (Assessment Float)
  | submit input now => (input.build now).toOption
  | score request now => (config.assess request now).toOption
  | _ => none

/-- The record that a call reads. It is known before anything is read. -/
def target? : Call → Option RecordId
  | evaluate policyId => some (.file policyId)
  | decide policyId _ _ _ => some (.file policyId)
  | getFile policyId => some (.file policyId)
  | transition claimId _ _ => some (.claim claimId)
  | getClaim claimId => some (.claim claimId)
  | _ => none

end Call

/-- The operation that a call names. It is written once, and read below over a desk and over
scripts. -/
def Call.program {m : Type → Type} [Monad m] [RecordStore UnderwritingFile m] [FileQueue m]
    [CarrierGateway m] [RecordStore Claim m] [ClaimNumbers m] (config : EvaluationConfig Float) :
    Call → m Reply
  | .submit input now => Reply.file <$> (Underwriting.submit input now).run
  | .score request now => Reply.file <$> (Underwriting.score config request now).run
  | .evaluate policyId => Reply.outcome <$> (Underwriting.evaluate config policyId).run
  | .decide policyId proposal decidedBy now =>
    Reply.file <$> (Underwriting.decide policyId proposal decidedBy now).run
  | .getFile policyId => Reply.file <$> (Underwriting.get policyId).run
  | .queue limit => Reply.files <$> (Underwriting.queue limit).run
  | .openClaim request => Reply.claim <$> (Claims.openClaim request).run
  | .transition claimId request now =>
    Reply.claim <$> (Claims.transition claimId request now).run
  | .getClaim claimId => Reply.claim <$> (Claims.get claimId).run

/-- A call and the answer of the carrier, should the call refer a file. The answer is fixed
beforehand, whether it is asked for or not. -/
structure Visit where
  call : Call
  carrier : CarrierAnswer

/-- Runs a call from its start to its end. No other call comes between its steps. -/
def Visit.serve (config : EvaluationConfig Float) (v : Visit) (desk : Desk) : Reply × Desk :=
  ((v.call.program config : DeskM Reply).run v.carrier).run desk

/-- What a session keeps of a visit. The desk is kept too, so that one can say what was stored at
any time. -/
structure Entry where
  visit : Visit
  reply : Reply
  /-- The desk after the visit. -/
  after : Desk

/-- Visits served one after the other. The account grows at its end and is never rewritten. -/
structure Session where
  desk : Desk
  /-- The visits served, the latest last. -/
  past : List Entry

namespace Session

def empty : Session := ⟨.empty, []⟩

variable (config : EvaluationConfig Float)

/-- The visit is served on the desk that the one before it left. -/
def serve (s : Session) (v : Visit) : Session :=
  let result := v.serve config s.desk
  ⟨result.2, s.past ++ [⟨v, result.1, result.2⟩]⟩

/-- The session that serves the visits, from a desk with nothing on it. -/
def run (visits : List Visit) : Session := visits.foldl (serve config) empty

@[simp] theorem run_nil : run config [] = empty := rfl

@[simp] theorem run_append_one (visits : List Visit) (v : Visit) :
    run config (visits ++ [v]) = (run config visits).serve config v := by
  simp [run]

end Session

/-! ## The steps of an operation

An operation of the desk is a program over any store and any carrier. Here it runs over *scripts*:
a `Script` is either finished or names the next `DeskOp`, one step on the desk that nothing can come
between, with what follows for each answer. The script of a call shows where other calls can come
between its steps.

- **Running** (`Script.run`): all the steps of a script, one right after the other.
- **Agreement** (`run_program`): the script of a call, run so, is the operation on the desk. Each
  building block of the operations has its own such law (`runE_bind`, `runE_attempt`,
  `runE_commit`). -/

/-- A step on the desk that nothing can come between. Other calls can only come before it or after
it. -/
inductive DeskOp
  | insert (record : Stored)
  | update (record : Stored) (expected : UInt64)
  | fetch (id : RecordId)
  | pending (limit : Nat)
  | refer (referral : Referral)
  /-- Draws the number of a new claim. -/
  | number

namespace DeskOp

/-- What a step answers. It depends on the step, so that what follows a step can only be given the
answer of its kind. -/
@[reducible] def Answer : DeskOp → Type
  | insert _ => Except StoreError Unit
  | update _ _ => Except StoreError Unit
  | fetch _ => Except StoreError (Option Stored)
  | pending _ => Except StoreError (List UnderwritingFile)
  | refer _ => CarrierAnswer
  | number => UInt64

/-- The step on a desk, as its store, its carrier and its supply of numbers take it. The steps are
those of the desk, with files and claims under one roof. -/
def perform : (op : DeskOp) → DeskM op.Answer
  | insert (.file f) => RecordStore.insert f
  | insert (.claim c) => RecordStore.insert c
  | update (.file f) expected => RecordStore.update f expected
  | update (.claim c) expected => RecordStore.update c expected
  | fetch (.file policyId) => do
    let found : Except StoreError (Option UnderwritingFile) ← RecordStore.fetch policyId
    return found.map (Option.map Stored.file)
  | fetch (.claim claimId) => do
    let found : Except StoreError (Option Claim) ← RecordStore.fetch claimId
    return found.map (Option.map Stored.claim)
  | pending limit => FileQueue.pending limit
  | refer referral => CarrierGateway.refer referral
  | number => ClaimNumbers.next

end DeskOp

/-- A program cut into its steps: it is finished, or it waits for the answer of the next one. -/
inductive Script (β : Type)
  | done (result : β)
  | step (op : DeskOp) (next : op.Answer → Script β)

namespace Script

variable {β γ : Type}

def bind : Script β → (β → Script γ) → Script γ
  | done b, f => f b
  | step op next, f => step op fun answer => (next answer).bind f

instance : Monad Script where
  pure := done
  bind := bind

/-- All the steps of a script, one right after the other. The answer of each step decides which
comes next. -/
def run : Script β → DeskM β
  | done b => pure b
  | step op next => do (next (← op.perform)).run

def file? : Stored → Option UnderwritingFile
  | .file f => some f
  | .claim _ => none

def claim? : Stored → Option Claim
  | .file _ => none
  | .claim c => some c

instance : RecordStore UnderwritingFile Script where
  insert f := step (.insert (.file f)) done
  update f expected := step (.update (.file f) expected) done
  fetch policyId := step (.fetch (.file policyId)) fun found =>
    done (Except.map (fun r => Option.bind r file?) found)

instance : RecordStore Claim Script where
  insert c := step (.insert (.claim c)) done
  update c expected := step (.update (.claim c) expected) done
  fetch claimId := step (.fetch (.claim claimId)) fun found =>
    done (Except.map (fun r => Option.bind r claim?) found)

instance : FileQueue Script where
  pending limit := step (.pending limit) done

instance : CarrierGateway Script where
  refer referral := step (.refer referral) done

instance : ClaimNumbers Script where
  next := step .number done

/-! ### Running a script -/

theorem run_bind (s : Script β) (f : β → Script γ) :
    (s >>= f).run = s.run >>= fun b => (f b).run := by
  induction s with
  | done b => exact (pure_bind (m := DeskM) b fun b => (f b).run).symm
  | step op next ih =>
    show (do ((next (← op.perform)).bind f).run) = _
    simp only [run, bind_assoc]
    congr 1
    funext answer
    exact ih answer

theorem run_pure (b : β) : (pure b : Script β).run = pure b := rfl

theorem run_map (f : β → γ) (s : Script β) : (f <$> s).run = f <$> s.run := by
  show (s >>= fun b => pure (f b)).run = _
  rw [run_bind, map_eq_pure_bind]
  rfl

/-- A script of one step runs as that step. -/
theorem run_step_done (op : DeskOp) : (step op done).run = op.perform :=
  bind_pure (m := DeskM) op.perform

variable {ε δ : Type}

/-- The run of a script that may fail. The failure is part of the result, so the steps up to it have
been taken. -/
def runE (s : ExceptT ε Script β) : ExceptT ε DeskM β := ExceptT.mk (Script.run s.run)

theorem runE_pure (b : β) : runE (pure b : ExceptT ε Script β) = pure b := rfl

theorem runE_bind (s : ExceptT ε Script β) (f : β → ExceptT ε Script γ) :
    runE (s >>= f) = runE s >>= fun b => runE (f b) := by
  show Script.run (s.run >>= ExceptT.bindCont f) = _
  rw [run_bind]
  show _ = s.run.run >>= ExceptT.bindCont fun b => runE (f b)
  congr 1
  funext result
  cases result <;> rfl

theorem runE_attempt (wrap : ε → δ) (s : Script (Except ε β)) :
    runE (attempt wrap s) = attempt wrap s.run := by
  show Script.run (s >>= fun result => pure (result.mapError wrap)) = _
  rw [run_bind]
  rfl

private theorem runE_lift (s : Script β) :
    runE (ExceptT.lift s : ExceptT ε Script β) = ExceptT.lift s.run :=
  run_map Except.ok s

/-- What a script reads of the files is what the desk has. A claim under the id would be no file,
but files are looked up on their own shelf. -/
private theorem run_fetch_file (policyId : PolicyId) :
    (RecordStore.fetch policyId : Script (Except StoreError (Option UnderwritingFile))).run =
      RecordStore.fetch policyId := by
  funext carrier desk
  show (Except.ok (((desk.files.find? policyId).map Stored.file).bind file?), desk) =
    (Except.ok (desk.files.find? policyId), desk)
  cases desk.files.find? policyId <;> rfl

/-- What a script reads of the claims is what the desk has. -/
private theorem run_fetch_claim (claimId : ClaimId) :
    (RecordStore.fetch claimId : Script (Except StoreError (Option Claim))).run =
      RecordStore.fetch claimId := by
  funext carrier desk
  show (Except.ok (((desk.claims.find? claimId).map Stored.claim).bind claim?), desk) =
    (Except.ok (desk.claims.find? claimId), desk)
  cases desk.claims.find? claimId <;> rfl

private theorem runE_fetchExisting {ρ : Type} [RecordStore ρ Script] [RecordStore ρ DeskM]
    (wrap : StoreError → δ) (k : String)
    (h : (RecordStore.fetch k : Script (Except StoreError (Option ρ))).run = RecordStore.fetch k) :
    runE (fetchExisting wrap k : ExceptT δ Script ρ) = fetchExisting wrap k := by
  simp only [fetchExisting, runE_bind, runE_attempt, h]
  congr 1
  funext found
  cases found <;> rfl

/-! ### The operations -/

theorem runE_require {β : Type} (wrap : ε → UnderwritingError) (result : Except ε β) :
    runE (Underwriting.require wrap result) = Underwriting.require wrap result := by
  simp only [Underwriting.require, runE_attempt, run_pure]

theorem runE_openFile (a : Assessment Float) :
    runE (Underwriting.openFile a) = Underwriting.openFile a := by
  have h (f : UnderwritingFile) : (RecordStore.insert f : Script _).run = RecordStore.insert f :=
    run_step_done (.insert (.file f))
  simp only [Underwriting.openFile, runE_bind, runE_attempt, h, runE_pure]

private theorem runE_refer (referral : Option Referral) :
    runE (Underwriting.refer referral) = Underwriting.refer referral := by
  cases referral with
  | none => rfl
  | some r =>
    have h : (CarrierGateway.refer r : Script _).run = CarrierGateway.refer r :=
      run_step_done (.refer r)
    simp only [Underwriting.refer, runE_attempt, h]

theorem runE_commit {β : Type} (draft : Draft β) :
    runE (Underwriting.commit draft) = Underwriting.commit draft := by
  have h : (RecordStore.update draft.file draft.expected : Script _).run =
      RecordStore.update draft.file draft.expected :=
    run_step_done (.update (.file draft.file) draft.expected)
  simp only [Underwriting.commit, runE_bind, runE_refer, runE_attempt, h, runE_pure]

theorem runE_getFile (policyId : PolicyId) :
    runE (Underwriting.get policyId) = Underwriting.get policyId :=
  runE_fetchExisting UnderwritingError.store policyId (run_fetch_file policyId)

theorem runE_getClaim (claimId : ClaimId) : runE (Claims.get claimId) = Claims.get claimId :=
  runE_fetchExisting ClaimError.store claimId (run_fetch_claim claimId)

private theorem runE_openClaim (request : OpenClaim) :
    runE (Claims.openClaim request) = Claims.openClaim request := by
  have hn : (ClaimNumbers.next : Script UInt64).run = ClaimNumbers.next := run_step_done .number
  have hi (c : Claim) : (RecordStore.insert c : Script _).run = RecordStore.insert c :=
    run_step_done (.insert (.claim c))
  by_cases hb : Text.isBlank request.policyId = true
  · simp only [Claims.openClaim, hb]
    rfl
  · simp only [Claims.openClaim, hb]
    simp only [Bool.false_eq_true, ↓reduceIte, runE_bind, runE_attempt, runE_lift, hn, hi,
      runE_pure]

private theorem runE_transition (claimId : ClaimId) (request : ClaimTransition) (now : Instant) :
    runE (Claims.transition claimId request now) = Claims.transition claimId request now := by
  have h (c : Claim) (n : UInt64) :
      (RecordStore.update c n : Script _).run = RecordStore.update c n :=
    run_step_done (.update (.claim c) n)
  simp only [Claims.transition, runE_bind, runE_getClaim, runE_attempt, run_pure, h, runE_pure]

/-- A call whose operation runs as it does on the desk replies as it does there. So the laws can be
proved of the operations alone. -/
theorem run_reply {ε β : Type} (wrap : Except ε β → Reply) {s : ExceptT ε Script β}
    {p : ExceptT ε DeskM β} (h : runE s = p) : (wrap <$> s.run).run = wrap <$> p.run := by
  subst h
  exact run_map wrap s.run

/-- **Agreement.** The script of a call, run without interruption, is the operation on the desk.
What is proved of scripts is therefore proved of the operations. -/
theorem run_program (config : EvaluationConfig Float) (c : Call) :
    (c.program config : Script Reply).run = c.program config := by
  cases c with
  | submit input now =>
    have h : runE (Underwriting.submit input now) = Underwriting.submit input now := by
      simp only [Underwriting.submit, runE_bind, runE_require, runE_openFile]
    exact run_reply _ h
  | score request now =>
    have h : runE (Underwriting.score config request now) =
        Underwriting.score config request now := by
      simp only [Underwriting.score, runE_bind, runE_require, runE_openFile]
    exact run_reply _ h
  | evaluate policyId =>
    have h : runE (Underwriting.evaluate config policyId) =
        Underwriting.evaluate config policyId := by
      simp only [Underwriting.evaluate, runE_bind, runE_getFile, runE_require, runE_commit]
    exact run_reply _ h
  | decide policyId proposal decidedBy now =>
    have h : runE (Underwriting.decide policyId proposal decidedBy now) =
        Underwriting.decide policyId proposal decidedBy now := by
      simp only [Underwriting.decide, runE_bind, runE_getFile, runE_require, runE_commit]
    exact run_reply _ h
  | getFile policyId => exact run_reply _ (runE_getFile policyId)
  | queue limit =>
    have hq : (FileQueue.pending limit : Script _).run = FileQueue.pending limit :=
      run_step_done (.pending limit)
    have h : runE (Underwriting.queue limit) = Underwriting.queue limit := by
      simp only [Underwriting.queue, runE_attempt, hq]
    exact run_reply _ h
  | openClaim request =>
    exact run_reply _ (runE_openClaim request)
  | transition claimId request now =>
    exact run_reply _ (runE_transition claimId request now)
  | getClaim claimId =>
    exact run_reply _ (runE_getClaim claimId)

end Script

end PolicyDesk
