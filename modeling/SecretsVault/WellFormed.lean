import SecretsVault.Reopening
import SecretsVault.Runs

/-!
# Well-formed documents

The lookups of a document take the first entry that fits; that this is the only one is an invariant of all operations
together.

- `VaultDocument.WellFormed`: names, ids, keys and active grants are unique, references point at something, open claims
  have their window, and the caps hold.
- `Mutation.decide_wellFormed`: what a mutation decides on is well formed if the document was.
- `wellFormed_run`: every copy of the document in every run is.
-/

namespace SecretsVault

open Lib Lib.Prog Lib.Copies VaultDocument

/-! ## Lists without clashes -/

section

variable {α : Type} {R : α → α → Prop} {l : List α}

theorem pairwise_concat {x : α} (h : l.Pairwise R) (hx : ∀ a ∈ l, R a x) : (l ++ [x]).Pairwise R :=
  List.pairwise_append.mpr ⟨h, List.pairwise_singleton R x, fun a ha b hb => by
    rw [List.mem_singleton.mp hb]
    exact hx a ha⟩

/-- An entry may be replaced by one that clashes with no more than it did. -/
theorem pairwise_set {i : Nat} {x y : α} (h : l.Pairwise R) (hx : l[i]? = some x) (hl : ∀ a, R a x → R a y)
    (hr : ∀ a, R x a → R y a) : (l.set i y).Pairwise R := by
  induction l generalizing i with
  | nil => exact h
  | cons a l ih =>
    obtain ⟨ha, hrest⟩ := List.pairwise_cons.mp h
    cases i with
    | zero =>
      cases hx
      exact List.pairwise_cons.mpr ⟨fun b hb => hr b (ha b hb), hrest⟩
    | succ i =>
      refine List.pairwise_cons.mpr ⟨fun b hb => ?_, ih hrest hx⟩
      rcases List.mem_or_eq_of_mem_set hb with hb | rfl
      · exact ha b hb
      · exact hl a (ha x (List.mem_of_getElem? hx))

theorem pairwise_modify {i : Nat} {f : α → α} (h : l.Pairwise R) (hl : ∀ a b, R a b → R a (f b))
    (hr : ∀ a b, R a b → R (f a) b) : (l.modify i f).Pairwise R := by
  by_cases hi : i < l.length
  · have hmod : l.modify i f = l.set i (f l[i]) := List.modify_eq_set_get f hi
    rw [hmod]
    exact pairwise_set h (List.getElem?_eq_getElem hi) (fun a => hl a _) (fun a => hr _ a)
  · rw [List.modify_eq_self (Nat.le_of_not_lt hi)]
    exact h

theorem pairwise_map {f : α → α} (h : l.Pairwise R) (hf : ∀ a b, R a b → R (f a) (f b)) : (l.map f).Pairwise R :=
  List.pairwise_map.mpr (h.imp fun {a b} => hf a b)

/-- What an entry of a modified list is. -/
theorem mem_modify {i : Nat} {f : α → α} {x : α} (hx : x ∈ l.modify i f) : x ∈ l ∨ ∃ y ∈ l, x = f y := by
  obtain ⟨j, hj, rfl⟩ := List.mem_iff_getElem.mp hx
  rw [List.length_modify] at hj
  rw [List.getElem_modify]
  split
  · exact Or.inr ⟨l[j], List.getElem_mem _, rfl⟩
  · exact Or.inl (List.getElem_mem _)

end

/-! ## The invariant -/

/-- No two paths are the same. -/
def Distinct (paths : List Path) : Prop := paths.Pairwise fun p q => samePath p q = false

/-- Names and ids of projects are unique, and so are the folders of a project. -/
structure ProjectsOk (projects : List Project) : Prop where
  names : projects.Pairwise fun p q => p.name ≠ q.name
  ids : projects.Pairwise fun p q => p.id ≠ q.id
  paths : ∀ p ∈ projects, Distinct p.paths ∧ p.paths.length ≤ MAX_PATHS_PER_PROJECT
  length_le : projects.length ≤ MAX_PROJECTS

/-- Secrets belong to a project, and their keys are unique in it. -/
structure SecretsOk (projects : List Project) (secrets : List Secret) : Prop where
  project : ∀ s ∈ secrets, ∃ p ∈ projects, p.id = s.projectId
  keys : secrets.Pairwise fun s t => (s.projectId, s.key) ≠ (t.projectId, t.key)
  length_le : secrets.length ≤ MAX_SECRETS

/-- Names and ids of agents are unique. -/
structure AgentsOk (agents : List AgentRecord) : Prop where
  names : agents.Pairwise fun a b => a.name ≠ b.name
  ids : agents.Pairwise fun a b => a.id ≠ b.id
  length_le : agents.length ≤ MAX_AGENTS

/-- There is one grant in force at most for an agent and a project, and grants name an agent. -/
structure GrantsOk (agents : List AgentRecord) (grants : List Grant) : Prop where
  agent : ∀ g ∈ grants, ∃ a ∈ agents, a.id = g.agentId
  active : grants.Pairwise fun g g' => g.revokedAt = none → g'.revokedAt = none →
    (g.agentId, g.projectId) ≠ (g'.agentId, g'.projectId)

/-- Ids of leases are unique, and leases name an agent. -/
structure LeasesOk (agents : List AgentRecord) (leases : List Lease) : Prop where
  agent : ∀ l ∈ leases, ∃ a ∈ agents, a.id = l.agentId
  ids : leases.Pairwise fun l l' => l.id ≠ l'.id
  length_le : leases.length ≤ MAX_LEASES

/-- Ids of approvals are unique, and an approval that was approved has its window. -/
structure ApprovalsOk (approvals : List Approval) : Prop where
  ids : approvals.Pairwise fun a b => a.id ≠ b.id
  window : ∀ a ∈ approvals, a.status = .approved ∨ a.status = .consumed → a.claimExpiresAt.isSome
  length_le : approvals.length ≤ MAX_APPROVALS

/-- The document is well formed. -/
structure VaultDocument.WellFormed (d : VaultDocument) : Prop where
  projects : ProjectsOk d.projects
  secrets : SecretsOk d.projects d.secrets
  agents : AgentsOk d.agents
  grants : GrantsOk d.agents d.grants
  leases : LeasesOk d.agents d.leases
  approvals : ApprovalsOk d.approvals

theorem wellFormed_new (t : OffsetDateTime) : (VaultDocument.new t).WellFormed :=
  ⟨⟨.nil, .nil, fun _ h => (nomatch h), Nat.zero_le _⟩, ⟨fun _ h => (nomatch h), .nil, Nat.zero_le _⟩,
    ⟨.nil, .nil, Nat.zero_le _⟩, ⟨fun _ h => (nomatch h), .nil⟩, ⟨fun _ h => (nomatch h), .nil, Nat.zero_le _⟩,
    ⟨.nil, fun _ h => (nomatch h), Nat.zero_le _⟩⟩

/-! ## Parts that stay -/

section

variable {ps ps' : List Project} {as as' : List AgentRecord}

theorem SecretsOk.projects {secrets : List Secret} (h : SecretsOk ps secrets)
    (hp : ∀ s ∈ secrets, ∀ p ∈ ps, p.id = s.projectId → ∃ p' ∈ ps', p'.id = p.id) :
    SecretsOk ps' secrets := by
  refine ⟨fun s hs => ?_, h.keys, h.length_le⟩
  obtain ⟨p, hmem, hid⟩ := h.project s hs
  obtain ⟨p', hmem', hid'⟩ := hp s hs p hmem hid
  exact ⟨p', hmem', hid'.trans hid⟩

theorem GrantsOk.agents {grants : List Grant} (h : GrantsOk as grants)
    (ha : ∀ a ∈ as, ∃ a' ∈ as', a'.id = a.id) : GrantsOk as' grants := by
  refine ⟨fun g hg => ?_, h.active⟩
  obtain ⟨a, hmem, hid⟩ := h.agent g hg
  obtain ⟨a', hmem', hid'⟩ := ha a hmem
  exact ⟨a', hmem', hid'.trans hid⟩

theorem LeasesOk.agents {leases : List Lease} (h : LeasesOk as leases)
    (ha : ∀ a ∈ as, ∃ a' ∈ as', a'.id = a.id) : LeasesOk as' leases := by
  refine ⟨fun l hl => ?_, h.ids, h.length_le⟩
  obtain ⟨a, hmem, hid⟩ := h.agent l hl
  obtain ⟨a', hmem', hid'⟩ := ha a hmem
  exact ⟨a', hmem', hid'.trans hid⟩

theorem LeasesOk.sublist {leases leases' : List Lease} (h : LeasesOk as leases) (hs : leases'.Sublist leases) :
    LeasesOk as leases' :=
  ⟨fun l hl => h.agent l (hs.subset hl), h.ids.sublist hs, hs.length_le.trans h.length_le⟩

theorem ApprovalsOk.sublist {approvals approvals' : List Approval} (h : ApprovalsOk approvals)
    (hs : approvals'.Sublist approvals) : ApprovalsOk approvals' :=
  ⟨h.ids.sublist hs, fun a ha => h.window a (hs.subset ha), hs.length_le.trans h.length_le⟩

/-- Changes of leases in place that keep id and agent. -/
theorem LeasesOk.modify {leases : List Lease} (h : LeasesOk as leases) {f : Lease → Lease}
    (hid : ∀ l, (f l).id = l.id) (ha : ∀ l, (f l).agentId = l.agentId) (i : Nat) :
    LeasesOk as (leases.modify i f) := by
  refine ⟨fun l hl => ?_, ?_, by rw [List.length_modify]; exact h.length_le⟩
  · rcases mem_modify hl with hmem | ⟨l0, hmem, rfl⟩
    · exact h.agent l hmem
    · rw [ha]; exact h.agent l0 hmem
  · exact pairwise_modify h.ids (fun a b hab => by rw [hid]; exact hab) fun a b hab => by rw [hid]; exact hab

end

theorem VaultDocument.WellFormed.revokeLeases {d : VaultDocument} (h : d.WellFormed) (pick : Lease → Bool)
    (now : OffsetDateTime) : (revokeLeases pick now d).WellFormed := by
  refine { h with leases := ⟨fun l hl => ?_, ?_, by simpa [SecretsVault.revokeLeases] using h.leases.length_le⟩ }
  · obtain ⟨l0, hmem, rfl⟩ := List.mem_map.mp hl
    have := h.leases.agent l0 hmem
    split <;> exact this
  · refine pairwise_map h.leases.ids fun a b hab => ?_
    split <;> split <;> exact hab

theorem VaultDocument.WellFormed.denyApprovals {d : VaultDocument} (h : d.WellFormed) (pick : Approval → Bool) :
    (denyApprovals pick d).WellFormed := by
  refine { h with approvals := ⟨?_, fun a ha hst =>
    ?_, by simpa [SecretsVault.denyApprovals] using h.approvals.length_le⟩ }
  · refine pairwise_map h.approvals.ids fun a b hab => ?_
    split <;> split <;> exact hab
  · obtain ⟨a0, hmem, rfl⟩ := List.mem_map.mp ha
    have hw := h.approvals.window a0 hmem
    split
    · rename_i hpick
      rw [if_pos hpick] at hst
      rcases hst with hst | hst <;> cases hst
    · rename_i hpick
      rw [if_neg hpick] at hst
      exact hw hst

theorem VaultDocument.WellFormed.purgeTerminal {d : VaultDocument} (h : d.WellFormed) (now : OffsetDateTime) :
    (purgeTerminal d now).WellFormed :=
  { h with
    leases := h.leases.sublist List.filter_sublist
    approvals := h.approvals.sublist List.filter_sublist }

theorem VaultDocument.WellFormed.sweepAt {d : VaultDocument} (h : d.WellFormed) (full : Bool) (now : OffsetDateTime) :
    (sweepAt full d now).WellFormed := by
  unfold SecretsVault.sweepAt
  split
  · exact h.purgeTerminal now
  · exact h

theorem VaultDocument.WellFormed.withHead {d : VaultDocument} (h : d.WellFormed) (head : Option AuditHead) :
    (d.withHead head).WellFormed := by
  cases head with
  | none => exact h
  | some head => exact { h with }

theorem VaultDocument.WellFormed.lockAll {d : VaultDocument} (h : d.WellFormed) (now : OffsetDateTime) :
    (lockAll now d).WellFormed := (h.revokeLeases _ now).denyApprovals _

theorem VaultDocument.WellFormed.invalidateLease {d : VaultDocument} (h : d.WellFormed) (leaseId : String)
    (now : OffsetDateTime) : (invalidateLease d leaseId now).WellFormed := by
  unfold SecretsVault.invalidateLease
  split
  · exact h
  · rename_i pos _
    have := h.leases.modify (f := fun l => { l with revokedAt := some now }) (fun _ => rfl) (fun _ => rfl) pos
    exact { h with leases := this }

/-! ## Projects and secrets -/

theorem projectByName_some {d : VaultDocument} {name : String} {p : Project} (h : d.projectByName name = some p) :
    p ∈ d.projects ∧ p.name = name :=
  ⟨List.mem_of_find?_eq_some h, by simpa using List.find?_some h⟩

theorem find?_isSome_false {α : Type} {l : List α} {q : α → Bool} (h : (l.find? q).isSome = false) :
    ∀ a ∈ l, q a = false := by
  simpa using h

theorem checkNewProjectName_eq_ok {d : VaultDocument} {name : String} (h : d.checkNewProjectName name = .ok ()) :
    (∀ p ∈ d.projects, p.name ≠ name) ∧ d.projects.length < MAX_PROJECTS := by
  unfold checkNewProjectName at h
  split at h; · cases h
  split at h; · cases h
  rename_i hfree
  split at h; · cases h
  rename_i hlen
  rw [Bool.not_eq_true] at hfree
  exact ⟨fun p hp => by simpa using find?_isSome_false hfree p hp, Nat.lt_of_not_le hlen⟩

/-- A folder that is added is a new one, and there is room for it. -/
theorem checkNewPath_eq_ok {fs : FileSystem} {project : Project} {path canonical : Path}
    (h : checkNewPath fs project path = .ok canonical) :
    (∀ p ∈ project.paths, samePath p canonical = false) ∧ project.paths.length < MAX_PATHS_PER_PROJECT := by
  unfold checkNewPath at h
  split at h; · cases h
  dsimp only at h
  split at h; · cases h
  split at h; · cases h
  split at h; · cases h
  split at h; · cases h
  rename_i hlen
  split at h; · cases h
  rename_i hnew
  cases h
  exact ⟨by simpa using hnew, Nat.lt_of_not_le hlen⟩

theorem paths_concat {paths : List Path} {path : Path} (h : Distinct paths ∧ paths.length ≤ MAX_PATHS_PER_PROJECT)
    (hnew : ∀ p ∈ paths, samePath p path = false) (hlen : paths.length < MAX_PATHS_PER_PROJECT) :
    Distinct (paths ++ [path]) ∧ (paths ++ [path]).length ≤ MAX_PATHS_PER_PROJECT := by
  refine ⟨pairwise_concat h.1 hnew, ?_⟩
  rw [List.length_append, List.length_singleton]
  exact hlen

theorem addPaths_eq_ok {fs : FileSystem} {project project' : Project} {paths : List Path}
    (h : addPaths fs project paths = .ok project')
    (hp : Distinct project.paths ∧ project.paths.length ≤ MAX_PATHS_PER_PROJECT) :
    project'.id = project.id ∧ project'.name = project.name ∧ Distinct project'.paths ∧
      project'.paths.length ≤ MAX_PATHS_PER_PROJECT := by
  induction paths generalizing project with
  | nil => cases h; exact ⟨rfl, rfl, hp⟩
  | cons p rest ih =>
    obtain ⟨canonical, hc, hrest⟩ := Except.bind_eq_ok h
    obtain ⟨hnew, hlen⟩ := checkNewPath_eq_ok hc
    have := ih hrest (paths_concat hp hnew hlen)
    exact this

section

variable {d d' : VaultDocument} {h h' : Host}

theorem doProjectAdd_wellFormed (hw : d.WellFormed) {name id : String} {paths : List Path}
    (hr : (doProjectAdd d name paths).run h = (.ok (d', id), h')) : d'.WellFormed := by
  obtain ⟨_, h1, hcheck, hr⟩ := bind_eq_ok hr
  obtain ⟨fresh, h2, hfresh, hr⟩ := bind_eq_ok hr
  rw [run_get_bind] at hr
  obtain ⟨project, h3, hpaths, hr⟩ := bind_eq_ok hr
  cases hr
  rw [run_lift, Prod.mk.injEq] at hcheck hpaths
  obtain ⟨hname, hlen⟩ := checkNewProjectName_eq_ok (Outcome.ofExcept_eq_ok hcheck.1)
  have hid := find?_isSome_false (freshId_eq_ok hfresh)
  obtain ⟨hpid, hpname, hnodup, hcap⟩ := addPaths_eq_ok (Outcome.ofExcept_eq_ok hpaths.1)
    ⟨List.Pairwise.nil, Nat.zero_le _⟩
  refine { hw with projects := ⟨?_, ?_, ?_, ?_⟩, secrets := ?_ }
  · exact pairwise_concat hw.projects.names fun p hp => by rw [hpname]; exact hname p hp
  · exact pairwise_concat hw.projects.ids fun p hp => by rw [hpid]; simpa using hid p hp
  · intro p hp
    rcases List.mem_append.mp hp with hp | hp
    · exact hw.projects.paths p hp
    · rw [List.mem_singleton.mp hp]
      exact ⟨hnodup, hcap⟩
  · rw [List.length_append, List.length_singleton]
    exact hlen
  · exact hw.secrets.projects fun _ _ p hp _ => ⟨p, List.mem_append_left _ hp, rfl⟩

/-- A project that is changed in place keeps its name and id. -/
theorem updateProject_wellFormed (hw : d.WellFormed) {name : String} {f : Project → Except VaultError Project}
    (hu : updateProject d name f = .ok d') (hf : ∀ p p', f p = .ok p' → p'.id = p.id ∧ p'.name = p.name ∧
      (Distinct p.paths ∧ p.paths.length ≤ MAX_PATHS_PER_PROJECT →
        Distinct p'.paths ∧ p'.paths.length ≤ MAX_PATHS_PER_PROJECT)) : d'.WellFormed := by
  unfold updateProject at hu
  split at hu; · cases hu
  rename_i idx _
  split at hu; · cases hu
  rename_i p hp
  obtain ⟨p', hp', hu⟩ := Except.bind_eq_ok hu
  cases hu
  obtain ⟨hid, hname, hpaths⟩ := hf p p' hp'
  have hmem := List.mem_of_getElem? hp
  refine { hw with projects := ⟨?_, ?_, ?_, ?_⟩, secrets := ?_ }
  · exact pairwise_set hw.projects.names hp (fun _ ha => by rw [hname]; exact ha) fun _ ha => by rw [hname]; exact ha
  · exact pairwise_set hw.projects.ids hp (fun _ ha => by rw [hid]; exact ha) fun _ ha => by rw [hid]; exact ha
  · intro q hq
    rcases List.mem_or_eq_of_mem_set hq with hq | rfl
    · exact hw.projects.paths q hq
    · exact hpaths (hw.projects.paths p hmem)
  · rw [List.length_set]
    exact hw.projects.length_le
  · refine hw.secrets.projects fun _ _ q hq _ => ?_
    obtain ⟨i, hi, rfl⟩ := List.mem_iff_getElem.mp hq
    refine ⟨(d.projects.set idx p').get ⟨i, by rw [List.length_set]; exact hi⟩, List.get_mem _ _, ?_⟩
    rw [List.get_eq_getElem, List.getElem_set]
    split
    · rename_i heq
      subst heq
      rw [List.getElem?_eq_getElem hi, Option.some.injEq] at hp
      rw [hid, hp]
    · rfl

theorem doProjectPathAdd_wellFormed (hw : d.WellFormed) {name : String} {path : Path} {u : Unit}
    (hr : (doProjectPathAdd d name path).run h = (.ok (d', u), h')) : d'.WellFormed := by
  rw [doProjectPathAdd, run_get_bind] at hr
  obtain ⟨d1, h1, hu, hr⟩ := bind_eq_ok hr
  cases hr
  rw [run_lift, Prod.mk.injEq] at hu
  refine updateProject_wellFormed hw (Outcome.ofExcept_eq_ok hu.1) fun p p' hp => ?_
  obtain ⟨canonical, hc, hp⟩ := Except.bind_eq_ok hp
  cases hp
  obtain ⟨hnew, hlen⟩ := checkNewPath_eq_ok hc
  exact ⟨rfl, rfl, fun hok => paths_concat hok hnew hlen⟩

theorem doProjectPathRemove_wellFormed (hw : d.WellFormed) {name : String} {path : Path} {u : Unit}
    (hr : (doProjectPathRemove d name path).run h = (.ok (d', u), h')) : d'.WellFormed := by
  rw [doProjectPathRemove, run_get_bind] at hr
  obtain ⟨d1, h1, hu, hr⟩ := bind_eq_ok hr
  cases hr
  rw [run_lift, Prod.mk.injEq] at hu
  refine updateProject_wellFormed hw (Outcome.ofExcept_eq_ok hu.1) fun p p' hp => ?_
  extract_lets candidate at hp
  split at hp
  · cases hp
  · rename_i pos _
    cases hp
    have hsub := List.eraseIdx_sublist p.paths pos
    exact ⟨rfl, rfl, fun hok => ⟨hok.1.sublist hsub, hsub.length_le.trans hok.2⟩⟩

theorem doProjectRemove_wellFormed (hw : d.WellFormed) {name : String} {u : Unit}
    (hr : (doProjectRemove d name).run h = (.ok (d', u), h')) : d'.WellFormed := by
  unfold doProjectRemove at hr
  split at hr; · cases hr
  rename_i idx _
  split at hr; · cases hr
  rename_i p hp
  obtain ⟨_, h1, hcheck, hr⟩ := bind_eq_ok hr
  cases hr
  rw [run_lift, Prod.mk.injEq] at hcheck
  have hcheck := Outcome.ofExcept_eq_ok hcheck.1
  unfold checkProjectRemovable at hcheck
  split at hcheck; · cases hcheck
  rename_i hnone
  simp only [List.any_eq_true, beq_iff_eq, not_exists, not_and] at hnone
  have hsub := List.eraseIdx_sublist d.projects idx
  refine { hw with projects := ⟨hw.projects.names.sublist hsub, hw.projects.ids.sublist hsub,
    fun q hq => hw.projects.paths q (hsub.subset hq), hsub.length_le.trans hw.projects.length_le⟩, secrets := ?_ }
  refine hw.secrets.projects fun s hs q hq hid => ⟨q, ?_, rfl⟩
  obtain ⟨i, hi, rfl⟩ := List.mem_iff_getElem.mp hq
  refine List.mem_eraseIdx_iff_getElem.mpr ⟨i, hi, fun heq => ?_, rfl⟩
  subst heq
  rw [List.getElem?_eq_getElem hi, Option.some.injEq] at hp
  exact hnone s hs (by rw [← hp, hid])

theorem doSecretSet_wellFormed (hw : d.WellFormed) {project key : String} {value : Bytes} {u : Unit}
    (hr : (doSecretSet d project key value).run h = (.ok (d', u), h')) : d'.WellFormed := by
  obtain ⟨_, h1, -, hr⟩ := bind_eq_ok hr
  split at hr
  · cases hr
  rename_i p hp
  rw [run_get_bind] at hr
  split at hr
  · rename_i idx _
    cases hr
    refine { hw with secrets := ⟨fun s hs => ?_, ?_, by rw [List.length_modify]; exact hw.secrets.length_le⟩ }
    · rcases mem_modify hs with hs | ⟨t, ht, rfl⟩
      · exact hw.secrets.project s hs
      · exact hw.secrets.project t ht
    · exact pairwise_modify hw.secrets.keys (fun _ _ hab => hab) fun _ _ hab => hab
  · obtain ⟨_, h2, hcheck, hr⟩ := bind_eq_ok hr
    cases hr
    rw [run_lift, Prod.mk.injEq] at hcheck
    have hcheck := Outcome.ofExcept_eq_ok hcheck.1
    unfold checkNewSecretKey at hcheck
    split at hcheck; · cases hcheck
    split at hcheck; · cases hcheck
    rename_i hlen
    split at hcheck; · cases hcheck
    rename_i hfree
    rw [Bool.not_eq_true] at hfree
    have hfree := find?_isSome_false hfree
    refine { hw with secrets := ⟨fun s hs => ?_, ?_, ?_⟩ }
    · rcases List.mem_append.mp hs with hs | hs
      · exact hw.secrets.project s hs
      · rw [List.mem_singleton.mp hs]
        exact ⟨p, (projectByName_some hp).1, rfl⟩
    · refine pairwise_concat hw.secrets.keys fun s hs heq => ?_
      simp only [Prod.mk.injEq] at heq
      have := hfree s hs
      simp [heq.1, heq.2] at this
    · rw [List.length_append, List.length_singleton]
      exact Nat.lt_of_not_le hlen

theorem doSecretDelete_wellFormed (hw : d.WellFormed) {project key : String} {u : Unit}
    (hr : (doSecretDelete d project key).run h = (.ok (d', u), h')) : d'.WellFormed := by
  unfold doSecretDelete at hr
  split at hr; · cases hr
  split at hr; · cases hr
  rename_i idx _
  cases hr
  have hsub := List.eraseIdx_sublist d.secrets idx
  exact { hw with secrets := ⟨fun s hs => hw.secrets.project s (hsub.subset hs), hw.secrets.keys.sublist hsub,
    hsub.length_le.trans hw.secrets.length_le⟩ }

/-! ## Agents and grants -/

theorem doAgentAdd_wellFormed [Crypto] (hw : d.WellFormed) {name : String} {a : String × String}
    (hr : (doAgentAdd d name).run h = (.ok (d', a), h')) : d'.WellFormed := by
  obtain ⟨_, h1, hcheck, hr⟩ := bind_eq_ok hr
  obtain ⟨⟨token, digest, tokenPrefix⟩, h2, -, hr⟩ := bind_eq_ok hr
  obtain ⟨id, h3, hfresh, hr⟩ := bind_eq_ok hr
  rw [run_get_bind] at hr
  cases hr
  rw [run_lift, Prod.mk.injEq] at hcheck
  have hcheck := Outcome.ofExcept_eq_ok hcheck.1
  unfold checkNewAgentName at hcheck
  split at hcheck; · cases hcheck
  split at hcheck; · cases hcheck
  rename_i hfree
  split at hcheck; · cases hcheck
  rename_i hlen
  rw [Bool.not_eq_true] at hfree
  have hname := find?_isSome_false hfree
  have hid := find?_isSome_false (freshId_eq_ok hfresh)
  refine { hw with agents := ⟨?_, ?_, ?_⟩, grants := ?_, leases := ?_ }
  · exact pairwise_concat hw.agents.names fun a ha => by simpa using hname a ha
  · exact pairwise_concat hw.agents.ids fun a ha => by simpa using hid a ha
  · rw [List.length_append, List.length_singleton]
    exact Nat.lt_of_not_le hlen
  · exact hw.grants.agents fun a ha => ⟨a, List.mem_append_left _ ha, rfl⟩
  · exact hw.leases.agents fun a ha => ⟨a, List.mem_append_left _ ha, rfl⟩

theorem agentRevoked_wellFormed (hw : d.WellFormed) {name : String} {now : OffsetDateTime}
    (hr : agentRevoked d name now = .ok d') : d'.WellFormed := by
  obtain ⟨idx, a, ha, rfl⟩ := agentRevoked_eq_ok hr
  have hids : ∀ b ∈ d.agents, ∃ b' ∈ d.agents.set idx { a with status := .revoked }, b'.id = b.id := by
    intro b hb
    obtain ⟨i, hi, rfl⟩ := List.mem_iff_getElem.mp hb
    refine ⟨_, List.getElem_mem (by rw [List.length_set]; exact hi : i < _), ?_⟩
    rw [List.getElem_set]
    split
    · rename_i heq
      subst heq
      rw [List.getElem?_eq_getElem hi, Option.some.injEq] at ha
      rw [ha]
    · rfl
  have hset : ({ d with agents := d.agents.set idx { a with status := .revoked } } : VaultDocument).WellFormed :=
    { hw with
      agents := ⟨pairwise_set hw.agents.names ha (fun _ h => h) fun _ h => h,
        pairwise_set hw.agents.ids ha (fun _ h => h) fun _ h => h, by rw [List.length_set]; exact hw.agents.length_le⟩
      grants := hw.grants.agents hids
      leases := hw.leases.agents hids }
  exact (hset.revokeLeases _ now).denyApprovals _

theorem settleGrant_wellFormed (hw : d.WellFormed) (agentId projectId : String) (now : OffsetDateTime) :
    (settleGrant agentId projectId now d).WellFormed := by
  have hrevoked : (revokeUncoveredLeases agentId projectId now d).WellFormed := hw.revokeLeases _ now
  unfold settleGrant denyPairApprovalsIfRevealLost
  split
  · exact hrevoked
  · exact hrevoked.denyApprovals _

theorem agentByName_some {name : String} {a : AgentRecord} (h : d.agentByName name = some a) : a ∈ d.agents :=
  List.mem_of_find?_eq_some h

theorem doGrantAdd_wellFormed (hw : d.WellFormed) {agentName projectName : String} {ops : List Op}
    {now : OffsetDateTime} (hr : doGrantAdd d agentName projectName ops now = .ok d') : d'.WellFormed := by
  unfold doGrantAdd at hr
  split at hr; · cases hr
  split at hr; · cases hr
  rename_i agent hagent
  split at hr; · cases hr
  rename_i project _
  extract_lets grants at hr
  cases hr
  refine settleGrant_wellFormed (d := { d with grants }) { hw with grants := ?_ } agent.id project.id now
  cases hidx : d.grants.findIdx? (isActiveGrant agent.id project.id) with
  | some idx =>
    have heq : grants = d.grants.modify idx fun g => { g with ops } := by simp only [grants, hidx]
    rw [heq]
    refine ⟨fun g hg => ?_, pairwise_modify hw.grants.active (fun _ _ h => h) fun _ _ h => h⟩
    rcases mem_modify hg with hg | ⟨g0, hg0, rfl⟩
    · exact hw.grants.agent g hg
    · exact hw.grants.agent g0 hg0
  | none =>
    have heq : grants = d.grants ++
        [{ agentId := agent.id, projectId := project.id, ops, createdAt := now, revokedAt := none }] := by
      simp only [grants, hidx]
    rw [heq]
    have hnone := List.findIdx?_eq_none_iff.mp hidx
    refine ⟨fun g hg => ?_, pairwise_concat hw.grants.active fun g hg hact _ hkey => ?_⟩
    · rcases List.mem_append.mp hg with hg | hg
      · exact hw.grants.agent g hg
      · rw [List.mem_singleton.mp hg]
        exact ⟨agent, agentByName_some hagent, rfl⟩
    · have := hnone g hg
      simp only [Prod.mk.injEq] at hkey
      simp [isActiveGrant, hkey.1, hkey.2, hact] at this

theorem doGrantRevoke_wellFormed (hw : d.WellFormed) {agentName projectName : String} {now : OffsetDateTime}
    (hr : doGrantRevoke d agentName projectName now = .ok d') : d'.WellFormed := by
  unfold doGrantRevoke at hr
  split at hr; · cases hr
  rename_i agent _
  split at hr; · cases hr
  rename_i project _
  split at hr; · cases hr
  rename_i idx _
  cases hr
  refine settleGrant_wellFormed
    (d := { d with grants := d.grants.modify idx fun g => { g with revokedAt := some now } })
    { hw with grants := ⟨fun g hg => ?_, ?_⟩ } agent.id project.id now
  · rcases mem_modify hg with hg | ⟨g0, hg0, rfl⟩
    · exact hw.grants.agent g hg
    · exact hw.grants.agent g0 hg0
  · exact pairwise_modify hw.grants.active (fun _ _ _ _ h => (nomatch h)) fun _ _ _ h => (nomatch h)

/-! ## Leases and approvals -/

theorem checkLeaseCreate_room {agentId project projectId : String} {ops : List Op} {ttlSecs : Nat}
    {now : OffsetDateTime} (hr : checkLeaseCreate d agentId project ops ttlSecs now = .ok (d', projectId)) :
    (∃ a ∈ d.agents, a.id = agentId) ∧ d' = sweepAt (decide (MAX_LEASES ≤ d.leases.length)) d now ∧
      d'.leases.length < MAX_LEASES := by
  unfold checkLeaseCreate at hr
  split at hr; · cases hr
  split at hr; · cases hr
  split at hr; · cases hr
  split at hr; · cases hr
  rename_i a ha
  split at hr; · cases hr
  split at hr; · cases hr
  split at hr; · cases hr
  dsimp only at hr
  split at hr; · cases hr
  rename_i hlen
  cases hr
  exact ⟨⟨a, List.mem_of_find?_eq_some ha, by simpa using List.find?_some ha⟩, rfl, Nat.lt_of_not_le hlen⟩

theorem checkApprovalRequest_room {agentId project projectId key : String} {now : OffsetDateTime}
    (hr : checkApprovalRequest d agentId project key now = .ok (d', projectId)) :
    d' = sweepAt (decide (MAX_APPROVALS ≤ d.approvals.length)) d now ∧ d'.approvals.length < MAX_APPROVALS := by
  unfold checkApprovalRequest at hr
  split at hr; · cases hr
  split at hr; · cases hr
  split at hr; · cases hr
  split at hr; · cases hr
  dsimp only at hr
  split at hr; · cases hr
  rename_i hlen
  cases hr
  exact ⟨rfl, Nat.lt_of_not_le hlen⟩

theorem sweepAt_agents (full : Bool) (d : VaultDocument) (now : OffsetDateTime) :
    (sweepAt full d now).agents = d.agents := by
  unfold sweepAt
  split <;> rfl

theorem leaseCreate_wellFormed [Crypto] (hw : d.WellFormed) {agentId project projectId credential : String}
    {ops : List Op} {ttlSecs : Nat} {now : OffsetDateTime} {l : Lease} {d1 : VaultDocument}
    (hcheck : checkLeaseCreate d agentId project ops ttlSecs now = .ok (d1, projectId))
    (hl : l.MintedFor credential agentId projectId ops ttlSecs now) (hid : ∀ l' ∈ d1.leases, l'.id ≠ l.id) :
    ({ d1 with leases := d1.leases ++ [l] } : VaultDocument).WellFormed := by
  obtain ⟨⟨a, ha, haid⟩, rfl, hlen⟩ := checkLeaseCreate_room hcheck
  have hw1 := hw.sweepAt (decide (MAX_LEASES ≤ d.leases.length)) now
  refine { hw1 with leases := ⟨fun x hx => ?_, pairwise_concat hw1.leases.ids hid, ?_⟩ }
  · rcases List.mem_append.mp hx with hx | hx
    · exact hw1.leases.agent x hx
    · rw [List.mem_singleton.mp hx, sweepAt_agents, hl.agentId]
      exact ⟨a, ha, haid⟩
  · rw [List.length_append, List.length_singleton]
    exact hlen

theorem approvalRequest_wellFormed (hw : d.WellFormed) {agentId project projectId key : String} {now : OffsetDateTime}
    {a : Approval} {d1 : VaultDocument} (hcheck : checkApprovalRequest d agentId project key now = .ok (d1, projectId))
    (ha : ∃ id, a = .new id agentId projectId key now) (hid : ∀ b ∈ d1.approvals, b.id ≠ a.id) :
    ({ d1 with approvals := d1.approvals ++ [a] } : VaultDocument).WellFormed := by
  obtain ⟨rfl, hlen⟩ := checkApprovalRequest_room hcheck
  obtain ⟨id, rfl⟩ := ha
  have hw1 := hw.sweepAt (decide (MAX_APPROVALS ≤ d.approvals.length)) now
  refine { hw1 with approvals := ⟨pairwise_concat hw1.approvals.ids hid, fun x hx hst => ?_, ?_⟩ }
  · rcases List.mem_append.mp hx with hx | hx
    · exact hw1.approvals.window x hx hst
    · rw [List.mem_singleton.mp hx] at hst
      rcases hst with hst | hst <;> cases hst
  · rw [List.length_append, List.length_singleton]
    exact hlen

/-- An approval may change its status in place, with a window if it has been approved. -/
theorem setApproval_wellFormed (hw : d.WellFormed) {pos : Nat} {a a' : Approval} (ha : d.approvals[pos]? = some a)
    (hid : a'.id = a.id) (hwindow : a'.status = .approved ∨ a'.status = .consumed → a'.claimExpiresAt.isSome) :
    ({ d with approvals := d.approvals.set pos a' } : VaultDocument).WellFormed := by
  refine { hw with approvals := ⟨?_, fun x hx hst => ?_, by rw [List.length_set]; exact hw.approvals.length_le⟩ }
  · exact pairwise_set hw.approvals.ids ha (fun _ h => by rw [hid]; exact h) fun _ h => by rw [hid]; exact h
  · rcases List.mem_or_eq_of_mem_set hx with hx | rfl
    · exact hw.approvals.window x hx hst
    · exact hwindow hst

/-- What a mutation decides on is well formed if the document was. -/
theorem Mutation.decide_wellFormed [Crypto] {α : Type} {m : Mutation α} {a : α} (hw : d.WellFormed)
    (hr : (m.decide d).run h = (.ok (d', a), h')) : d'.WellFormed := by
  cases m with
  | projectAdd => exact doProjectAdd_wellFormed hw hr
  | projectPathAdd => exact doProjectPathAdd_wellFormed hw hr
  | projectPathRemove => exact doProjectPathRemove_wellFormed hw hr
  | projectRemove => exact doProjectRemove_wellFormed hw hr
  | secretSet => exact doSecretSet_wellFormed hw hr
  | secretDelete => exact doSecretDelete_wellFormed hw hr
  | agentAdd => exact doAgentAdd_wellFormed hw hr
  | agentRevoke => exact agentRevoked_wellFormed hw (deciding_eq_ok hr)
  | grantAdd => exact doGrantAdd_wellFormed hw (deciding_eq_ok hr)
  | grantRevoke => exact doGrantRevoke_wellFormed hw (deciding_eq_ok hr)
  | leaseCreate _ agentId project ops ttlSecs =>
    obtain ⟨lease, credential⟩ := a
    obtain ⟨d1, projectId, hcheck, rfl, hl, hid⟩ := Mutation.decide_effect hr
    exact leaseCreate_wellFormed hw hcheck hl hid
  | leaseRevoke =>
    obtain ⟨pos, rfl⟩ := checkLeaseRevoke_eq_ok (deciding_eq_ok hr)
    refine { hw with leases := hw.leases.modify (fun l => ?_) (fun l => ?_) pos } <;> split <;> rfl
  | approvalRequest =>
    obtain ⟨d1, projectId, hcheck, rfl, ha, hid⟩ := Mutation.decide_effect hr
    exact approvalRequest_wellFormed hw hcheck ha hid
  | approvalDecide _ approvalId approve =>
    obtain ⟨pos, a, -, ha, -, -, -, -, rfl⟩ := checkApprovalDecide_eq_ok (deciding_eq_ok hr)
    refine setApproval_wellFormed hw ha ?_ ?_
    · split <;> rfl
    · intro hst
      split at hst
      · rename_i happrove
        rw [if_pos happrove]
        rfl
      · rcases hst with hst | hst <;> cases hst
  | revealClaim =>
    obtain ⟨p, pos, a, s, -, -, ha, hmem, -, -, -, -, -, hst, -, -, -, rfl⟩ := claim_eq_ok (Mutation.decide_effect hr)
    exact setApproval_wellFormed hw ha rfl fun _ => hw.approvals.window a hmem (Or.inl hst)

end

/-! ## Runs -/

theorem kept_wellFormed [Crypto] : Kept WellFormed :=
  ⟨Mutation.decide_wellFormed, WellFormed.lockAll, WellFormed.invalidateLease, WellFormed.purgeTerminal,
    WellFormed.withHead⟩

/-- In every run of a created vault, every copy of the document is well formed: the one in memory, the one sealed in the
envelope of the session, and the one in the vault file. -/
theorem wellFormed_run [Crypto] [VaultJson] [AuditJson] [LawfulCrypto] [LawfulVaultJson] {passphrase : Bytes}
    {idleTimeout : Nat} {h h' : Host} {s : Session} (hr : (Session.create passphrase idleTimeout).run h = (.ok s, h')) :
    ∃ u, s.unlocked = some u ∧ ∀ run, (Vault.mk s.envelope.header u.keys).HonestRun ⟨some s, h'⟩ run →
      ∃ c, (Vault.mk s.envelope.header u.keys).Holds (World.after ⟨some s, h'⟩ run) c ∧ All WellFormed c :=
  kept_wellFormed.created wellFormed_new hr

/-- A vault that enrolls an agent, locks and is loaded again. -/
theorem wellFormed_run_enrolled : ∃ s h', (Session.create Reference.passphrase 0).run Reference.healthy = (.ok s, h') ∧
    ∃ u, s.unlocked = some u ∧ ∃ c, (Vault.mk s.envelope.header u.keys).Holds (World.after ⟨some s, h'⟩
      [⟨Reference.conditions, .call (.mutate (.agentAdd "human" "ci"))⟩, ⟨Reference.conditions, .call .lockPersist⟩,
        ⟨Reference.conditions, .restart 0⟩]) c ∧ All WellFormed c := by
  obtain ⟨s, h', hr⟩ := Reference.create_empty 0
  obtain ⟨u, hu, hrun⟩ := wellFormed_run hr
  exact ⟨s, h', hr, u, hu, hrun _ ⟨fun _ _ _ ht => ht.elim, fun _ _ _ ht => ht.elim, trivial, trivial⟩⟩

end SecretsVault
