import HostletCore.TopologyDeclarations

/-!
The services a plan deploys and the selections it asks for, in terms of the services the repository declares.
-/
namespace HostletCore
open Guarded Text

section Choice

variable {parse : List Char → Option Json} {inventory : RepositoryInventory} {plan : TopologyPlan}
  {config : GeneratedTopologyConfig} {services : List ServiceCandidate} {c : ServiceCandidate}

theorem planOf_candidates (candidates : List ServiceCandidate) : (planOf candidates).candidates = candidates := by
  unfold planOf
  simp only
  split <;> rfl

theorem mem_roles {candidates : List ServiceCandidate} : c ∈ candidates ↔
    c ∈ (candidates.filter fun c => c.role = .frontend) ∨ c ∈ (candidates.filter fun c => c.role = .backend) ∨
      c ∈ (candidates.filter fun c => c.role = .web) := by
  simp only [List.mem_filter, decide_eq_true_eq]
  cases c.role <;> simp

/-- What is deployed: at most one service, or a frontend and a backend. -/
def Pairing (services : List ServiceCandidate) : Prop :=
  services = [] ∨ (∃ c, services = [c]) ∨ ∃ f b, services = [f, b] ∧ f.role = .frontend ∧ b.role = .backend

theorem ready_services {candidates : List ServiceCandidate} (ready : (planOf candidates).readiness = .ready) :
    Pairing (planOf candidates).services ∧ ∀ c, c ∈ (planOf candidates).services ↔ c ∈ candidates := by
  have of_frontend : ∀ f, (candidates.filter fun c => c.role = .frontend) = [f] → f.role = .frontend := by
    intro f only
    have member : f ∈ candidates.filter fun c => c.role = .frontend := by simp [only]
    simpa using (List.mem_filter.mp member).2
  have of_backend : ∀ b, (candidates.filter fun c => c.role = .backend) = [b] → b.role = .backend := by
    intro b only
    have member : b ∈ candidates.filter fun c => c.role = .backend := by simp [only]
    simpa using (List.mem_filter.mp member).2
  unfold planOf at ready ⊢
  simp only at ready ⊢
  split at ready
  · rename_i f b frontends backends web
    refine ⟨.inr (.inr ⟨f, b, rfl, of_frontend f frontends, of_backend b backends⟩), fun c => ?_⟩
    refine Iff.trans ?_ mem_roles.symm
    rw [frontends, backends, web]
    simp
  · rename_i f frontends backends web
    refine ⟨.inr (.inl ⟨f, rfl⟩), fun c => ?_⟩
    refine Iff.trans ?_ mem_roles.symm
    rw [frontends, backends, web]
    simp
  · rename_i b frontends backends web
    refine ⟨.inr (.inl ⟨b, rfl⟩), fun c => ?_⟩
    refine Iff.trans ?_ mem_roles.symm
    rw [frontends, backends, web]
    simp
  · rename_i w frontends backends web
    refine ⟨.inr (.inl ⟨w, rfl⟩), fun c => ?_⟩
    refine Iff.trans ?_ mem_roles.symm
    rw [frontends, backends, web]
    simp
  · cases ready
  · cases ready

theorem selectService_mem {selector : Option (List Char)} {role : ServiceRole} {label : String}
    {chosen : List ServiceCandidate} (unique : ∀ c ∈ plan.candidates, ∀ c' ∈ plan.candidates,
      c.selector = c'.selector → c = c') (done : selectService plan selector role label = .ok chosen) :
    (chosen = [] ∨ ∃ c, chosen = [c]) ∧
      ∀ c, c ∈ chosen ↔ c ∈ plan.candidates ∧ c.role = role ∧ selector = some c.selector := by
  cases selector with
  | none =>
    cases done
    exact ⟨.inl rfl, fun c => by simp⟩
  | some selector =>
    simp only [selectService, bind_ok, require_ok, pure_ok] at done
    obtain ⟨first, found, rfl⟩ := done
    have member := List.mem_of_find?_eq_some found
    have facts : first.selector = selector ∧ first.role = role := by simpa using List.find?_some found
    refine ⟨.inr ⟨first, rfl⟩, fun c => ?_⟩
    rw [List.mem_singleton]
    constructor
    · rintro rfl
      exact ⟨member, facts.2, by rw [facts.1]⟩
    · rintro ⟨listed, _, same⟩
      exact unique c listed first member ((Option.some.inj same).symm.trans facts.1.symm)

/-- The configuration asks for a service of this selector and role. -/
def Picks (config : GeneratedTopologyConfig) (selector : List Char) (role : ServiceRole) : Prop :=
  config.mode = "auto" ∨ (role = .frontend ∧ config.frontendSelector = some selector) ∨
    (role = .backend ∧ config.backendSelector = some selector)

theorem selected_mem (chosen : selectedServices (planRepositoryTopology parse inventory) config = .ok services) :
    Pairing services ∧
      ∀ c, c ∈ services ↔ c ∈ planCandidates parse inventory ∧ Picks config c.selector c.role := by
  have candidates : (planRepositoryTopology parse inventory).candidates = planCandidates parse inventory :=
    planOf_candidates _
  unfold selectedServices at chosen
  split at chosen
  · rename_i auto
    simp only [bind_ok, ensure_ok, pure_ok, decide_eq_true_eq] at chosen
    obtain ⟨_, ready, rfl⟩ := chosen
    obtain ⟨pairing, all⟩ := ready_services ready
    exact ⟨pairing, fun c => (all c).trans ⟨fun member => ⟨member, .inl auto⟩, And.left⟩⟩
  · rename_i manual
    simp only [bind_ok, pure_ok] at chosen
    obtain ⟨front, frontend, back, backend, rfl⟩ := chosen
    have unique : ∀ c ∈ (planRepositoryTopology parse inventory).candidates,
        ∀ c' ∈ (planRepositoryTopology parse inventory).candidates, c.selector = c'.selector → c = c' := by
      rw [candidates]
      exact fun c member c' member' => candidate_unique member member'
    obtain ⟨few, mem⟩ := selectService_mem unique frontend
    obtain ⟨few', mem'⟩ := selectService_mem unique backend
    rw [candidates] at mem mem'
    constructor
    · rcases few with rfl | ⟨f, rfl⟩
      · rcases few' with rfl | ⟨b, rfl⟩
        · exact .inl rfl
        · exact .inr (.inl ⟨b, rfl⟩)
      · rcases few' with rfl | ⟨b, rfl⟩
        · exact .inr (.inl ⟨f, rfl⟩)
        · have front_role := ((mem f).mp List.mem_cons_self).2.1
          have back_role := ((mem' b).mp List.mem_cons_self).2.1
          exact .inr (.inr ⟨f, b, rfl, front_role, back_role⟩)
    · intro c
      rw [List.mem_append, mem, mem', Picks, or_iff_right manual, ← and_or_left]

end Choice

section Deployable

variable {parse : List Char → Option Json} {inventory : RepositoryInventory} {config : GeneratedTopologyConfig}
  {services : List ServiceCandidate}

/-- Every offered service the configuration asks for has a name artifacts may have, and a frontend and a backend
among them have different slugs. -/
def DeployableChoice (parse : List Char → Option Json) (files : Files) (config : GeneratedTopologyConfig) : Prop :=
  (∀ d, Offers parse files d → Picks config d.selector d.role →
    validArtifactServiceName (String.ofList d.name) = true) ∧
  ∀ d e, Offers parse files d → Offers parse files e → Picks config d.selector d.role →
    Picks config e.selector e.role → d.role = .frontend → e.role = .backend → appSlug d.name ≠ appSlug e.name

/-- The services a deployment gets are distinct and deployable exactly when the declared ones it asks for are. -/
theorem planned_services_iff
    (chosen : selectedServices (planRepositoryTopology parse inventory) config = .ok services) :
    ((services.map ServiceCandidate.name).Nodup ∧ (services.map fun s => appSlug s.name).Nodup ∧
      ∀ s ∈ services, validArtifactServiceName (String.ofList s.name) = true) ↔
    DeployableChoice parse (normalizedFiles inventory) config := by
  obtain ⟨pairing, mem⟩ := selected_mem chosen
  have declared : ∀ s ∈ services, ∃ d, Offers parse (normalizedFiles inventory) d ∧
      Picks config d.selector d.role ∧ s.For d := by
    intro s member
    obtain ⟨listed, picked⟩ := (mem s).mp member
    obtain ⟨d, offered, known⟩ := candidate_offered listed
    exact ⟨d, offered, known.selector ▸ known.role ▸ picked, known⟩
  have deployed : ∀ d, Offers parse (normalizedFiles inventory) d → Picks config d.selector d.role →
      ∃ s ∈ services, s.For d := by
    intro d offered picked
    obtain ⟨s, listed, known⟩ := offered_candidate offered
    exact ⟨s, (mem s).mpr ⟨listed, known.selector.symm ▸ known.role.symm ▸ picked⟩, known⟩
  constructor
  · rintro ⟨_, slugs, valid⟩
    constructor
    · intro d offered picked
      obtain ⟨s, member, known⟩ := deployed d offered picked
      exact known.name ▸ valid s member
    · intro d e offered offered' picked picked' front back
      obtain ⟨f, member, known⟩ := deployed d offered picked
      obtain ⟨b, member', known'⟩ := deployed e offered' picked'
      have front' : f.role = .frontend := known.role.trans front
      have back' : b.role = .backend := known'.role.trans back
      rw [← known.name, ← known'.name]
      rcases pairing with rfl | ⟨c, rfl⟩ | ⟨first, second, rfl, first_role, second_role⟩
      · cases member
      · rw [List.mem_singleton.mp member] at front'
        rw [List.mem_singleton.mp member', front'] at back'
        cases back'
      · have here : f = first := by
          rcases List.mem_cons.mp member with same | later
          · exact same
          · rw [List.mem_singleton.mp later, second_role] at front'
            cases front'
        have here' : b = second := by
          rcases List.mem_cons.mp member' with same | later
          · rw [same, first_role] at back'
            cases back'
          · exact List.mem_singleton.mp later
        rw [here, here']
        simpa using slugs
  · rintro ⟨valid, slugs⟩
    have names : ∀ s ∈ services, validArtifactServiceName (String.ofList s.name) = true := by
      intro s member
      obtain ⟨d, offered, picked, known⟩ := declared s member
      rw [known.name]
      exact valid d offered picked
    rcases pairing with rfl | ⟨c, rfl⟩ | ⟨f, b, rfl, front, back⟩
    · exact ⟨.nil, .nil, names⟩
    · exact ⟨by simp, by simp, names⟩
    · obtain ⟨d, offered, picked, known⟩ := declared f List.mem_cons_self
      obtain ⟨e, offered', picked', known'⟩ := declared b (List.mem_cons_of_mem _ List.mem_cons_self)
      have different : appSlug f.name ≠ appSlug b.name := by
        rw [known.name, known'.name]
        exact slugs d e offered offered' picked picked' (known.role ▸ front) (known'.role ▸ back)
      refine ⟨?_, by simpa using different, names⟩
      simpa using fun same : f.name = b.name => different (by rw [same])

end Deployable

section Answerable

variable {parse : List Char → Option Json} {inventory : RepositoryInventory} {plan : TopologyPlan}

/-- The configuration a user sends who picks one service. -/
def frontendChoice (selector : List Char) : GeneratedTopologyConfig :=
  { schemaVersion := generatedTopologySchemaVersion, mode := "selected", frontendSelector := some selector,
    backendSelector := none, backendPathPrefixes := [] }

def backendChoice (selector : List Char) : GeneratedTopologyConfig :=
  { schemaVersion := generatedTopologySchemaVersion, mode := "selected", frontendSelector := none,
    backendSelector := some selector, backendPathPrefixes := [] }

/-- The validator accepts every selector of the plan, and some accepted choice deploys something. -/
def Answerable (plan : TopologyPlan) : Prop :=
  (∀ c ∈ plan.candidates, validateGeneratedTopologyConfig (frontendChoice c.selector) = .ok () ∧
    validateGeneratedTopologyConfig (backendChoice c.selector) = .ok ()) ∧
  ∃ config services, validateGeneratedTopologyConfig config = .ok () ∧
    selectedServices plan config = .ok services ∧ services ≠ []

theorem frontendChoice_accepted (selector : List Char) :
    validateGeneratedTopologyConfig (frontendChoice selector) = .ok () ↔ validSelector selector = true := by
  simp [validateGeneratedTopologyConfig, frontendChoice, bind_ok, ensure_ok, distinctPrefixes]

theorem backendChoice_accepted (selector : List Char) :
    validateGeneratedTopologyConfig (backendChoice selector) = .ok () ↔ validSelector selector = true := by
  simp [validateGeneratedTopologyConfig, backendChoice, bind_ok, ensure_ok, distinctPrefixes]

theorem selected_role {config : GeneratedTopologyConfig} {services : List ServiceCandidate}
    (asks : (planRepositoryTopology parse inventory).readiness = .needsSelection)
    (chosen : selectedServices (planRepositoryTopology parse inventory) config = .ok services)
    (some_ : services ≠ []) : ∃ c ∈ planCandidates parse inventory, c.role ≠ .web := by
  obtain ⟨c, member⟩ := List.exists_mem_of_ne_nil services some_
  obtain ⟨listed, picked⟩ := ((selected_mem chosen).2 c).mp member
  refine ⟨c, listed, ?_⟩
  rcases picked with auto | ⟨role, _⟩ | ⟨role, _⟩
  · rw [selectedServices, if_pos auto] at chosen
    simp only [bind_ok, ensure_ok, decide_eq_true_eq] at chosen
    obtain ⟨_, ready, _⟩ := chosen
    rw [asks] at ready
    cases ready
  · simp [role]
  · simp [role]

theorem select_of_mem {c : ServiceCandidate} {label : String} (member : c ∈ plan.candidates) :
    ∃ first, selectService plan (some c.selector) c.role label = .ok [first] := by
  obtain ⟨first, found⟩ : ∃ first, (plan.candidates.find? fun other =>
      other.selector = c.selector && other.role = c.role) = some first := by
    apply Option.isSome_iff_exists.mp
    rw [List.find?_isSome]
    exact ⟨c, member, by simp⟩
  refine ⟨first, ?_⟩
  simp only [selectService, bind_ok, require_ok, pure_ok]
  exact ⟨first, found, rfl⟩

theorem choice_of_role {c : ServiceCandidate} (member : c ∈ plan.candidates) (role : c.role ≠ .web)
    (valid : validSelector c.selector = true) : ∃ config services,
      validateGeneratedTopologyConfig config = .ok () ∧ selectedServices plan config = .ok services ∧
          services ≠ [] := by
  cases kind : c.role with
  | web => exact absurd kind role
  | frontend =>
    obtain ⟨first, found⟩ := @select_of_mem plan c "Frontend" member
    rw [kind] at found
    refine ⟨frontendChoice c.selector, [first], (frontendChoice_accepted _).mpr valid, ?_, by simp⟩
    have manual : ¬(frontendChoice c.selector).mode = "auto" := by simp [frontendChoice]
    rw [selectedServices, if_neg manual]
    simp only [bind_ok, pure_ok]
    exact ⟨[first], found, [], rfl, rfl⟩
  | backend =>
    obtain ⟨first, found⟩ := @select_of_mem plan c "Backend" member
    rw [kind] at found
    refine ⟨backendChoice c.selector, [first], (backendChoice_accepted _).mpr valid, ?_, by simp⟩
    have manual : ¬(backendChoice c.selector).mode = "auto" := by simp [backendChoice]
    rw [selectedServices, if_neg manual]
    simp only [bind_ok, pure_ok]
    exact ⟨[], rfl, [first], found, rfl⟩

/-- A selection that is asked for can be given exactly when every declared service has a selector the validator
accepts and some offered one is a frontend or a backend. -/
theorem selection_answerable_iff (asks : (planRepositoryTopology parse inventory).readiness = .needsSelection) :
    Answerable (planRepositoryTopology parse inventory) ↔
      (∀ d, Declares parse (normalizedFiles inventory) d → validSelector d.selector = true) ∧
        ∃ d, Offers parse (normalizedFiles inventory) d ∧ d.role ≠ .web := by
  have candidates : (planRepositoryTopology parse inventory).candidates = planCandidates parse inventory :=
    planOf_candidates _
  unfold Answerable
  rw [candidates]
  constructor
  · rintro ⟨accepted, config, services, _, chosen, some_⟩
    constructor
    · intro d declared
      obtain ⟨c, member, same⟩ := declared_offered declared
      rw [← same]
      exact (frontendChoice_accepted _).mp (accepted c member).1
    · obtain ⟨c, member, role⟩ := selected_role asks chosen some_
      obtain ⟨d, offered, known⟩ := candidate_offered member
      exact ⟨d, offered, known.role ▸ role⟩
  · rintro ⟨valid, d, offered, role⟩
    have accepted : ∀ c ∈ planCandidates parse inventory, validSelector c.selector = true := by
      intro c member
      obtain ⟨e, offered', known⟩ := candidate_offered member
      rw [known.selector]
      exact valid e offered'.1
    constructor
    · intro c member
      exact ⟨(frontendChoice_accepted _).mpr (accepted c member), (backendChoice_accepted _).mpr (accepted c member)⟩
    · obtain ⟨c, member, known⟩ := offered_candidate offered
      exact choice_of_role (candidates.symm ▸ member) (known.role.symm ▸ role) (accepted c member)

end Answerable

section Repositories

variable {parse : List Char → Option Json} {inventory : RepositoryInventory}

/-- Where the detectors meet the selectors in their order, the candidates are what they find. -/
theorem planCandidates_ascending (ascending : (detectedCandidates parse (normalizedFiles inventory)).Pairwise
    fun a b => (attachPublicEnv (normalizedFiles inventory) a).selector <
      (attachPublicEnv (normalizedFiles inventory) b).selector) :
    planCandidates parse inventory =
      (detectedCandidates parse (normalizedFiles inventory)).map (attachPublicEnv (normalizedFiles inventory)) :=
  Keyed.firsts_ascending (List.pairwise_map.mpr ascending)

/-- No file of the repository is JSON. -/
def noJson : List Char → Option Json := fun _ => none

def demoSites : RepositoryInventory :=
  ⟨[⟨"admin/index.html".toList, some []⟩, ⟨"shop/index.html".toList, some []⟩]⟩

theorem demoSites_answerable : Answerable (planRepositoryTopology noJson demoSites) := by
  have found := @planCandidates_ascending noJson demoSites (by decide +kernel)
  have offered : ∀ c ∈ planCandidates noJson demoSites, validSelector c.selector = true ∧ c.role ≠ .web := by
    rw [found]
    decide +kernel
  have asks : (planRepositoryTopology noJson demoSites).readiness = .needsSelection := by
    rw [planRepositoryTopology, found]
    decide +kernel
  refine (selection_answerable_iff asks).mpr ⟨fun d declared => ?_, ?_⟩
  · obtain ⟨c, member, same⟩ := declared_offered declared
    rw [← same]
    exact (offered c member).1
  · obtain ⟨c, member⟩ : ∃ c, c ∈ planCandidates noJson demoSites := by
      rw [found]
      exact List.exists_mem_of_ne_nil _ (by decide +kernel)
    obtain ⟨d, declared, known⟩ := candidate_offered member
    exact ⟨d, declared, known.role ▸ (offered c member).2⟩

/-- A package that can be started. -/
def startable : List Char → Option Json := fun _ => some (.obj [("scripts", .obj [("start", .str "node .")])])

/-- Two packages that only start: the plan asks for a selection, and there is none it takes. -/
def demoPackages : RepositoryInventory :=
  ⟨[⟨"api/package.json".toList, some []⟩, ⟨"jobs/package.json".toList, some []⟩]⟩

theorem packages_unanswerable : (planRepositoryTopology startable demoPackages).readiness = .needsSelection ∧
    ¬Answerable (planRepositoryTopology startable demoPackages) := by
  have found := @planCandidates_ascending startable demoPackages (by decide +kernel)
  have asks : (planRepositoryTopology startable demoPackages).readiness = .needsSelection := by
    rw [planRepositoryTopology, found]
    decide +kernel
  refine ⟨asks, ?_⟩
  rintro ⟨_, config, services, _, chosen, some_⟩
  obtain ⟨c, member, role⟩ := selected_role asks chosen some_
  have web : ∀ c ∈ planCandidates startable demoPackages, c.role = .web := by
    rw [found]
    decide +kernel
  exact role (web c member)

/-- A package built with Vite. -/
def viteBuilt : List Char → Option Json := fun _ =>
  some (.obj [("scripts", .obj [("build", .str "vite build")]), ("devDependencies", .obj [("vite", .str "5")])])

def automatic : GeneratedTopologyConfig :=
  { schemaVersion := generatedTopologySchemaVersion, mode := "auto", frontendSelector := none,
    backendSelector := none, backendPathPrefixes := [] }

theorem automatic_chosen {services : List ServiceCandidate}
    (ready : (planRepositoryTopology parse inventory).readiness = .ready)
    (planned : (planRepositoryTopology parse inventory).services = services) :
    selectedServices (planRepositoryTopology parse inventory) automatic = .ok services := by
  have auto : automatic.mode = "auto" := rfl
  rw [selectedServices, if_pos auto]
  simp only [bind_ok, ensure_ok, pure_ok, decide_eq_true_eq]
  exact ⟨(), ready, planned⟩

def demoPair : RepositoryInventory :=
  ⟨[⟨"shop/package.json".toList, some []⟩, ⟨"api/requirements.txt".toList, some "flask".toList⟩]⟩

theorem demoPair_deployable : DeployableChoice viteBuilt (normalizedFiles demoPair) automatic := by
  have found := @planCandidates_ascending viteBuilt demoPair (by decide +kernel)
  have ready : (planRepositoryTopology viteBuilt demoPair).readiness = .ready := by
    rw [planRepositoryTopology, found]
    decide +kernel
  refine (planned_services_iff (automatic_chosen ready rfl)).mp ?_
  rw [planRepositoryTopology, found]
  decide +kernel

/-- A frontend and a Python service in the root of the repository: both are named after it. -/
def demoRoot : RepositoryInventory :=
  ⟨[⟨"package.json".toList, some []⟩, ⟨"requirements.txt".toList, some "flask".toList⟩]⟩

theorem root_services_collide : validateGeneratedTopologyConfig automatic = .ok () ∧
    ∃ services, selectedServices (planRepositoryTopology viteBuilt demoRoot) automatic = .ok services ∧
      services.length = 2 ∧ ¬(services.map ServiceCandidate.name).Nodup ∧
      ¬(services.map fun s => appSlug s.name).Nodup := by
  have found := @planCandidates_ascending viteBuilt demoRoot (by decide +kernel)
  have ready : (planRepositoryTopology viteBuilt demoRoot).readiness = .ready := by
    rw [planRepositoryTopology, found]
    decide +kernel
  refine ⟨by decide, _, automatic_chosen ready rfl, ?_⟩
  rw [planRepositoryTopology, found]
  decide +kernel

end Repositories

end HostletCore
