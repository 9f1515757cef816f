import HostletCore.ActivationRegister

/-!
Activation generations as fencing tokens: over every run of the API the counter
of an app only grows, a generation is handed out for one deployment only, and a
prepare that is repeated while its deployment is pending gets its generation
back.
-/
namespace HostletCore
open Relational Guarded Transition Handover

structure FencingGenerations (log : List (Entry Db Event)) (db : Db) : Prop where
  grows : ∀ entry ∈ log, ∀ app a, entry.before.apps.get app = some a →
    ∃ a', db.apps.get app = some a' ∧ a.routeGeneration ≤ a'.routeGeneration
  distinct : ∀ first ∈ log, ∀ second ∈ log, ∀ app d d' g g',
    preparedBy first.before first.event = some (app, d, g) →
    preparedBy second.before second.event = some (app, d', g') → d ≠ d' → g ≠ g'
  repeats : ∀ newer again older app d g, log = newer ++ again :: older →
    preparedBy again.before again.event = some (app, d, g) →
    (registerOf again.before app).pending = some d →
    ∃ between first oldest, older = between ++ first :: oldest ∧
      preparedBy first.before first.event = some (app, d, g) ∧
      (registerOf first.before app).pending ≠ some d ∧
      ∀ entry ∈ between, (registerOf entry.before app).pending = some d

section Histories
variable {env : Environment} {db : Db}

theorem app_kept {allowed : Db → Event → Prop} {log : List (Entry Db Event)}
    (run : Run (api env) allowed log db) :
    ∀ entry ∈ log, ∀ app, (entry.before.apps.get app).isSome → (db.apps.get app).isSome := by
  refine run.since (R := fun s t : Db => ∀ app, (s.apps.get app).isSome → (t.apps.get app).isSome)
    (fun first second app there => second app (first app there)) ?_
  intro _ db e _ _ app there
  obtain ⟨a, found⟩ := Option.isSome_iff_exists.mp there
  obtain ⟨a', found', _⟩ := (exec_apps env db e).kept found
  exact Option.isSome_iff_exists.mpr ⟨a', found'⟩

end Histories

/-- Activation generations are fencing tokens over every run of the API. -/
theorem generations_are_fencing_tokens {env : Environment} {log : List (Entry Db Event)} {db : Db}
    (run : Run (api env) (fun _ _ => True) log db) : FencingGenerations log db where
  grows := by
    intro entry member app a found
    obtain ⟨a', found'⟩ := Option.isSome_iff_exists.mp
      (app_kept run entry member app (Option.isSome_iff_exists.mpr ⟨a, found⟩))
    have grown := generation_mono (register_refines run app)
      ⟨registerOf entry.before app, moveOf env app entry.before entry.event⟩
      (List.mem_map_of_mem member)
    simp only [registerOf, found, found', Option.elim_some] at grown
    exact ⟨a', found', grown⟩
  distinct := by
    rintro first member second member' app d d' g _ one two other rfl
    exact other ((run_ledger (register_refines run app)).unique _ (List.mem_map_of_mem member) _
      (List.mem_map_of_mem member') d d' g (issued_of_prepared one) (issued_of_prepared two))
  repeats := by
    rintro newer again older app d g rfl prepared pending
    -- the pending candidate of the register came from its own first prepare
    obtain ⟨between, first, oldest, split, made, idle, given, held⟩ :=
      pending_since (register_refines run.split.1 app) pending
    obtain ⟨mid, rest, rfl, rfl, tail⟩ := List.map_eq_append_iff.mp split
    obtain ⟨entry, oldest, rfl, rfl, rfl⟩ := List.map_eq_cons_iff.mp tail
    obtain ⟨g', prepared'⟩ := prepared_of_move made
    have same : g' = g := by
      rw [issued_of_prepared prepared'] at given
      rw [← prepared_generation prepared, Register.next, if_pos pending]
      exact (Prod.mk.inj (Option.some.inj given)).2
    exact ⟨mid, entry, oldest, rfl, same ▸ prepared', idle,
      fun e member => (held _ (List.mem_map_of_mem member)).1⟩

/-- A deployment prepared twice under one claim: the second answer repeats the first generation. -/
def repeatedPrepare : List Event := [
  .createDeploy 0 20 21 22 demoRequest, .claim 0 1 "agent" 6 30 [],
  .prepare 1 1 20 ⟨22, 30, none, demoCandidate "hostlet-a"⟩,
  .prepare 2 1 20 ⟨22, 30, none, demoCandidate "hostlet-a"⟩]

theorem repeatedPrepare_fenced :
    ((demoReplay repeatedPrepare).1.take 2).map (fun entry => preparedBy entry.before entry.event) =
      [some (2, 20, 1), some (2, 20, 1)] ∧
    FencingGenerations (demoReplay repeatedPrepare).1 (demoReplay repeatedPrepare).2 :=
  ⟨by decide +kernel, generations_are_fencing_tokens (demo_run repeatedPrepare)⟩

end HostletCore
