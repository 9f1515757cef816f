import HostletCore.Interleaving

/-!
Which interleavings leave a finished deployment finished. Two statements look
at no status: the transaction of `enqueue_build` and the second update of
`claim_job_response`. A run keeps every terminal status exactly when those two
meet an active deployment whenever they are let through.
-/
namespace HostletCore
open Relational Guarded Transition

/-- Every deployment that was terminal still has the status it had. -/
def TerminalKept (t t' : Table Deployment) : Prop :=
  ∀ k d, t.get k = some d → d.active = false → ∃ d', t'.get k = some d' ∧ d'.status = d.status

/-- If the statement is one of the two, and is let through, the deployment it names is active. -/
def Work.meetsActive (env : Environment) (db : Db) : Work → Bool
  | .enqueueBuild pool runner deployment app build job payload =>
    !buildAdmissible env db pool runner deployment app build job payload ||
      (db.deployments.get deployment).all fun d => d.active
  | .markBuilding _ deployment => (db.deployments.get deployment).all fun d =>
      db.activeElsewhere d.appId deployment || d.active
  | _ => true

def Statement.meetsActive (env : Environment) (s : Live) : Statement → Bool
  | .resume _ index => (s.inFlight[index]?).all fun work => work.meetsActive env s.db
  | _ => true

section Tables
variable {t t' t'' : Table Deployment}

theorem TerminalKept.refl (t : Table Deployment) : TerminalKept t t := fun _ d found _ => ⟨d, found, rfl⟩

theorem TerminalKept.trans (first : TerminalKept t t') (second : TerminalKept t' t'') :
    TerminalKept t t'' := by
  intro k d found terminal
  obtain ⟨d', found', same⟩ := first k d found terminal
  obtain ⟨d'', found'', same'⟩ := second k d' found' (by rw [Deployment.active, same]; exact terminal)
  exact ⟨d'', found'', same'.trans same⟩

theorem terminalKept_of_evolves {move : Deployment → Deployment → Prop} {fresh : Deployment → Prop}
    (evolves : Table.Evolves move fresh t t')
    (still : ∀ {d d'}, move d d' → d.active = false → d'.status = d.status) : TerminalKept t t' := by
  intro k d found terminal
  obtain ⟨d', found', moved⟩ := evolves.kept found
  exact ⟨d', found', still moved terminal⟩

theorem terminalKept_insert {row : Deployment} (inserted : t.insert? row = some t') : TerminalKept t t' :=
  terminalKept_of_evolves (Table.evolves_insert inserted) fun same _ => same ▸ rfl

theorem terminalKept_update {p : Deployment → Bool} {f : Deployment → Deployment}
    {keeps : ∀ d, key (f d) = key d} (guarded : ∀ k d, t.get k = some d → p d = true → d.active = true) :
    TerminalKept t (t.update p f keeps) := by
  intro k d found terminal
  refine ⟨d, Table.get_update_of_not found ?_, rfl⟩
  cases chosen : p d with
  | false => rfl
  | true => rw [guarded k d found chosen] at terminal; cases terminal

theorem terminalKept_opened_iff {deployment : Uuid} {f : Deployment → Deployment}
    {keeps : ∀ d, key (f d) = key d} (opens : ∀ d, (f d).active = true) :
    TerminalKept t (t.update (fun d => d.id = deployment) f keeps) ↔
      (t.get deployment).all (fun d => d.active) = true := by
  rw [Option.all_eq_true]
  constructor
  · intro kept d found
    by_contra active
    obtain ⟨d', found', same⟩ := kept deployment d found (by simpa using active)
    have moved : (t.update (fun d => d.id = deployment) f keeps).get deployment = some (f d) :=
      Table.get_update_of found (decide_eq_true (Table.get_key found))
    cases found'.symm.trans moved
    rw [Deployment.active, ← same] at active
    exact active (opens d)
  · intro met
    refine terminalKept_update fun k d found here => met d ?_
    have same : d.id = deployment := of_decide_eq_true here
    rw [← same]
    exact Table.get_self found

end Tables

section Statements
variable {env : Environment} {db : Db} {now : Time}

theorem transaction_terminalKept {e : Event} (single : e.transaction = true) :
    TerminalKept db.deployments (exec env db e).deployments := by
  refine terminalKept_of_evolves (exec_deployments env db e) ?_
  intro d d' write terminal
  have notActive : d.active ≠ true := by simp [terminal]
  cases write with
  | same => rfl
  | pulsed _ _ active => exact absurd active notActive
  | prepared _ active => exact absurd active notActive
  | committed grant => exact absurd grant.active notActive
  | closed _ _ _ _ _ _ active _ => exact absurd active notActive
  | building => cases single
  | released inBuild => exact absurd (inBuild_active inBuild) notActive
  | reported => cases single
  | started queued => exact absurd (by rw [Deployment.active, queued]; rfl) notActive
  | recovered active _ => exact absurd active notActive

theorem enqueueBuild_terminalKept_iff {pool : BuildPool} {runner deployment app build job : Uuid}
    {payload : Payload} :
    TerminalKept db.deployments
        (advance env db now (.enqueueBuild pool runner deployment app build job payload)).1.deployments ↔
      (Work.enqueueBuild pool runner deployment app build job payload).meetsActive env db = true := by
  have accepted := enqueueBuild_isOk env db now pool runner deployment app build job payload
  simp only [advance, Work.meetsActive]
  cases sent : enqueueBuild env db now pool runner deployment app build job payload with
  | error e =>
    have refused : buildAdmissible env db pool runner deployment app build job payload = false := by
      simpa [sent] using accepted
    exact iff_of_true (.refl db.deployments) (by rw [refused]; rfl)
  | ok db' =>
    rw [accepted.mp ⟨db', sent⟩, Bool.not_true, Bool.false_or]
    obtain ⟨_, jobs, builds, owned, _, _, rfl⟩ := enqueueBuild_ok sent
    dsimp only
    rw [terminalKept_opened_iff fun d => rfl]

theorem markBuilding_terminalKept_iff {server deployment : Uuid} :
    TerminalKept db.deployments (advance env db now (.markBuilding server deployment)).1.deployments ↔
      (Work.markBuilding server deployment).meetsActive env db = true := by
  simp only [advance, Work.meetsActive, markBuilding]
  split
  · rename_i elsewhere
    refine iff_of_true (.refl db.deployments) ?_
    obtain ⟨d, found, other⟩ := (Option.any_eq_true _ _).mp elsewhere
    rw [found, Option.all_some, other, Bool.true_or]
  · rename_i alone
    dsimp only
    rw [terminalKept_opened_iff fun d => rfl]
    cases found : db.deployments.get deployment with
    | none => exact Iff.rfl
    | some d =>
      rw [found, Option.any_some, Bool.not_eq_true] at alone
      rw [Option.all_some, Option.all_some, alone, Bool.false_or]

theorem advance_terminalKept_iff (work : Work) :
    TerminalKept db.deployments (advance env db now work).1.deployments ↔ work.meetsActive env db = true := by
  cases work with
  | enqueueBuild => exact enqueueBuild_terminalKept_iff
  | markBuilding => exact markBuilding_terminalKept_iff
  | sendDeploy deployment build job a request =>
    refine iff_of_true ?_ rfl
    simp only [advance]
    split <;> exact .refl db.deployments
  | insertRollback rollback job a target =>
    refine iff_of_true ?_ rfl
    simp only [advance]
    split
    · rename_i db' done
      obtain ⟨deployments, inserted, rfl⟩ := insertRollback_ok done
      exact terminalKept_insert inserted
    · exact .refl db.deployments
  | enqueueRollback rollback job a target =>
    refine iff_of_true ?_ rfl
    simp only [advance]
    split
    · rename_i db' done
      obtain ⟨_, _, _, jobs, _, _, _, rfl⟩ := enqueueRollback_ok done
      exact .refl _
    · exact .refl db.deployments
  | startUnlessWaiting deployment job =>
    refine iff_of_true ?_ rfl
    simp only [advance, startUnlessWaiting]
    split
    · exact .refl db.deployments
    · simp only [markDeploymentRunning]
      refine terminalKept_update fun k d _ chosen => ?_
      simp only [Bool.and_eq_true, decide_eq_true_eq] at chosen
      rw [Deployment.active, chosen.2]
      rfl
  | failDeploymentRow deployment reason =>
    refine iff_of_true ?_ rfl
    simp only [advance, couldNotStart, failDeploymentRow, closeDeployments]
    refine terminalKept_update fun k d _ chosen => ?_
    simp only [Bool.and_eq_true] at chosen
    exact chosen.2
  | leaseBuild => exact iff_of_true (.refl _) rfl
  | stampBuildAssignment => exact iff_of_true (.refl _) rfl
  | switchCurrent server message =>
    refine iff_of_true ?_ rfl
    simp only [advance]
    exact switchCurrent_elim db server message (.refl db.deployments) fun _ _ _ => .refl db.deployments

/-- One statement of any request keeps the terminal statuses exactly when it meets none of them. -/
theorem execStatement_terminalKept_iff (s : Live) (e : Statement) :
    TerminalKept s.db.deployments (execStatement env s e).db.deployments ↔ e.meetsActive env s = true := by
  cases e with
  | transaction event =>
    refine iff_of_true ?_ rfl
    simp only [execStatement]
    split
    · exact transaction_terminalKept (by assumption)
    · exact .refl s.db.deployments
  | deploy now deployment build job request =>
    refine iff_of_true ?_ rfl
    simp only [execStatement]
    split
    · rename_i db' done
      obtain ⟨_, deployments, _, _, _, inserted, rfl⟩ := insertDeployment_ok done
      exact terminalKept_insert inserted
    · exact .refl s.db.deployments
  | rollback user app rollback job =>
    refine iff_of_true ?_ rfl
    simp only [execStatement]
    split <;> exact .refl s.db.deployments
  | advertise => exact iff_of_true (.refl _) rfl
  | claimNext now server agent version token skipped =>
    refine iff_of_true ?_ rfl
    simp only [execStatement]
    split
    · rename_i db' j done
      obtain ⟨_, _, _, _, rfl⟩ := claimNextQueuedJob_some done
      exact .refl _
    · exact .refl s.db.deployments
  | report now server message =>
    refine iff_of_true ?_ rfl
    simp only [execStatement]
    split
    · simp only [reportDeployment]
      exact terminalKept_update fun k d _ reporting => (reportedBy_id reporting).2
    · exact .refl s.db.deployments
  | resume now index =>
    simp only [execStatement, Statement.meetsActive]
    split
    · rename_i work next
      rw [next, Option.all_some]
      exact advance_terminalKept_iff work
    · rename_i none_
      rw [none_]
      exact iff_of_true (.refl s.db.deployments) rfl
  | restart => exact iff_of_true (.refl s.db.deployments) rfl

end Statements

/-- In every state of the run, each deployment that some earlier state saw terminal has the status it
had there. -/
def TerminalForever : List (Entry Live Statement) → Live → Prop
  | [], _ => True
  | entry :: older, s =>
    (∀ past ∈ entry :: older, TerminalKept past.before.db.deployments s.db.deployments) ∧
      TerminalForever older entry.before

theorem terminalKept_since {log : List (Entry Live Statement)} {s : Live} (forever : TerminalForever log s)
    (past : Entry Live Statement) (member : past ∈ log) :
    TerminalKept past.before.db.deployments s.db.deployments := by
  cases log with
  | nil => cases member
  | cons entry older => exact forever.1 past member

/-- Over every interleaving of the statements: terminal deployments stay terminal exactly when the
two unguarded updates never meet one. -/
theorem terminal_forever_iff (env : Environment) {log : List (Entry Live Statement)} {s : Live}
    (run : Run (statements env) (fun _ _ => True) log s) :
    TerminalForever log s ↔ ∀ entry ∈ log, entry.event.meetsActive env entry.before = true := by
  have stepIff : ∀ s e, TerminalKept s.db.deployments (execStatement env s e).db.deployments ↔
      e.meetsActive env s = true := fun s e => execStatement_terminalKept_iff s e
  induction run with
  | start => simp [TerminalForever]
  | @step s log run e _ ih =>
    simp only [TerminalForever, List.forall_mem_cons, ih]
    constructor
    · rintro ⟨⟨kept, _⟩, earlier⟩
      exact ⟨(stepIff s e).mp kept, earlier⟩
    · rintro ⟨here, earlier⟩
      have last := (stepIff s e).mpr here
      refine ⟨⟨last, fun past member => ?_⟩, earlier⟩
      exact (terminalKept_since (ih.mpr earlier) past member).trans last

/-- The history and the final state of a list of statements on the demo installation. -/
abbrev statementReplay (events : List Statement) : List (Entry Live Statement) × Live :=
  replay (statements demoEnv) ⟨demo, []⟩ [] events

theorem statements_run (events : List Statement) :
    Run (statements demoEnv) (fun _ _ => True) (statementReplay events).1 (statementReplay events).2 := by
  have fresh : (statements demoEnv).initial ⟨demo, []⟩ := ⟨demo_initial, rfl⟩
  exact replay_run (.start fresh) events

/-- A build that is claimed as soon as it is enqueued, and fails. -/
def failedBuild : List Statement := [
  .deploy 0 10 11 12 demoRequest, .resume 0 0, .resume 0 0, .claimNext 0 1 "agent" 6 15 [], .resume 0 0,
  .resume 0 0, .resume 0 0, .transaction (.complete 1 1 1 12 13 { status := .failed, claimToken := some 15 }),
  .transaction (.recoverDeployments 2)]

theorem failedBuild_terminal_forever :
    (((statementReplay failedBuild).2.db.deployments.get 10).any fun d => d.status = .failed) = true ∧
      TerminalForever (statementReplay failedBuild).1 (statementReplay failedBuild).2 :=
  ⟨by decide +kernel, (terminal_forever_iff demoEnv (statements_run failedBuild)).mpr (by decide +kernel)⟩

/-- The periodic recovery falls between the two transactions of a deploy request: the deployment has
no job yet and is failed. -/
def overtakenDeploy : List Statement := [
  .deploy 0 10 11 12 demoRequest, .resume 0 0, .transaction (.recoverDeployments 1)]

/-- The enqueued build makes the failed deployment active again. -/
theorem recovered_deployment_is_reopened :
    (((statementReplay overtakenDeploy).2.db.deployments.get 10).any fun d => d.status = .failed) = true ∧
    (((statementReplay (overtakenDeploy ++ [.resume 1 0])).2.db.deployments.get 10).any fun d =>
      d.status = .queuedForBuild) = true ∧
    ∃ log s, Run (statements demoEnv) (fun _ _ => True) log s ∧ ¬ TerminalForever log s := by
  have failed : (((statementReplay overtakenDeploy).2.db.deployments.get 10).any fun d =>
      d.status = .failed) = true := by decide +kernel
  have queued : (((statementReplay (overtakenDeploy ++ [.resume 1 0])).2.db.deployments.get 10).any fun d =>
      d.status = .queuedForBuild) = true := by decide +kernel
  refine ⟨failed, queued, _, _, statements_run (overtakenDeploy ++ [.resume 1 0]), fun forever => ?_⟩
  obtain ⟨d, before, wasFailed⟩ := (Option.any_eq_true _ _).mp failed
  obtain ⟨d', after, isQueued⟩ := (Option.any_eq_true _ _).mp queued
  have wasFailed := of_decide_eq_true wasFailed
  obtain ⟨d'', found, same⟩ := forever.1 _ List.mem_cons_self 10 d before
    (by rw [Deployment.active, wasFailed]; rfl)
  cases found.symm.trans after
  rw [wasFailed, of_decide_eq_true isQueued] at same
  cases same

end HostletCore
