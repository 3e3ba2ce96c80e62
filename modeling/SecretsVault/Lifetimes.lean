import SecretsVault.Locking

/-!
# How long a capability lives

In a run in which mutations that are sealed are stored, and locks leave nothing usable behind, what is usable in any
copy of the document was made by a step of the run, and since then the vault was not locked and the capability was
usable in every document the process served.

- `World.Since P Q w run`: a step of the run has `P`, and all later steps have `Q`.
- `Capability β`: what is usable of a document at a time, and how it comes into one. `Capability.lasts` is the history
  of what is usable after a run.
-/

namespace SecretsVault

open Lib Lib.Prog Lib.Copies Host VaultDocument

section

variable [Crypto] [VaultJson] [AuditJson]

/-! ## Since a step -/

/-- A step of the run has `P`, and every later one has `Q`, each in the world it is taken in. -/
def World.Since (P Q : World → Step → Prop) (w : World) (run : List Step) : Prop :=
  ∃ pre st post, run = pre ++ st :: post ∧ P (w.after pre) st ∧ ((w.after pre).next st).Along Q post

variable {P Q : World → Step → Prop} {w : World} {run : List Step} {st : Step}

theorem World.since_last (h : P (w.after run) st) : w.Since P Q (run ++ [st]) := ⟨run, st, [], rfl, h, trivial⟩

theorem World.Since.append {rest : List Step} (h : w.Since P Q run) (hq : (w.after run).Along Q rest) :
    w.Since P Q (run ++ rest) := by
  obtain ⟨pre, st0, post, rfl, hp, hpost⟩ := h
  refine ⟨pre, st0, post ++ rest, by simp, hp, World.Along.append.mpr ⟨hpost, ?_⟩⟩
  simpa using hq

theorem World.Since.mono {P' Q' : World → Step → Prop} (h : w.Since P Q run) (hP : ∀ w st, P w st → P' w st)
    (hQ : ∀ w st, Q w st → Q' w st) : w.Since P' Q' run := by
  obtain ⟨pre, st0, post, rfl, hp, hpost⟩ := h
  exact ⟨pre, st0, post, rfl, hP _ _ hp, hpost.mono hQ⟩

/-! ## Capabilities -/

/-- What is usable of a document at a time, and how it comes into one. -/
structure Capability (β : Type) where
  items : OffsetDateTime → VaultDocument → Set β
  made : β → World → Step → Prop
  later {t t' : OffsetDateTime} (h : t ≤ t') (d : VaultDocument) : items t' d ⊆ items t d
  purge {t t' : OffsetDateTime} (h : t ≤ t') (d : VaultDocument) : items t' (purgeTerminal d t) = items t' d
  dead {d : VaultDocument} (h : Dead d) (t : OffsetDateTime) : items t d = ∅
  withHead (d : VaultDocument) (head : Option AuditHead) (t : OffsetDateTime) : items t (d.withHead head) = items t d
  attempts {w : World} {st : Step} {a : Attempt} (h : st.Attempts w a) : ∃ s doc, w.sys st.conditions = some s ∧
    s.session.document = some doc ∧ ∀ t, ∀ x ∈ items t a.doc, x ∈ items t doc ∨ made x w st

variable {β : Type} (C : Capability β)

/-- The step neither locks the vault nor takes the item away. -/
structure Capability.Spares (x : β) (w : World) (st : Step) : Prop where
  unlocked : ∀ s', (w.next st).session = some s' → s'.document = none →
    (∃ idleTimeout, st.input = .restart idleTimeout) ∨ ∀ s, w.session = some s → s.document = none
  usable : ∀ s' d, (w.next st).session = some s' → s'.document = some d → d.Sane ∧ x ∈ C.items st.conditions.wall d

/-- The history of an item: it was made, and spared since. -/
def Capability.Lasts (w : World) (run : List Step) (x : β) : Prop :=
  w.Since (fun w st => C.made x w st ∧ C.Spares x w st) (C.Spares x) run

/-- The vault was not locked at the step in a way that leaves something usable behind, and what the step seals of a
mutation is stored. -/
structure Step.Settles (v : Vault) (w : World) (st : Step) : Prop where
  locks : ∀ s, w.sys st.conditions = some s → st.Persists s → v.LockEnds s
  drops : st.input = .call .lock → ∀ s, w.sys st.conditions = some s → v.Over s
  stores : ∀ s, w.sys st.conditions = some s → ¬st.Persists s → ∀ a, st.Attempts w a → a.Stores

/-- What is usable in a copy of the document was made, and spared since. -/
structure Capability.Settled (w : World) (run : List Step) (c : Copies VaultDocument) : Prop where
  nested : ∀ now, (∀ st ∈ run, st.conditions.wall ≤ now) → Nested (C.items now) c
  lasts : ∀ now, (∀ st ∈ run, st.conditions.wall ≤ now) → All (fun d => ∀ x ∈ C.items now d, C.Lasts w run x) c

variable {C} {s : Sys} {c c' : Copies VaultDocument}

/-- Copies in which nothing is usable are settled. -/
theorem Capability.settled_of_dead (h : All Dead c) : C.Settled w run c :=
  ⟨fun now _ => nested_of_dead (h.mono fun d hd => C.dead hd now),
    fun now _ => h.mono fun d hd x hx => by rw [C.dead hd now] at hx; exact hx.elim⟩

variable [LawfulCrypto] [LawfulVaultJson] {v : Vault}

omit [LawfulCrypto] [LawfulVaultJson] in
/-- A process that drops what is in memory. -/
theorem Vault.Holds.drops (h : v.Holds w c) (hi : st.input = .call .lock) (hs : w.sys st.conditions = some s)
    (ho : v.Over s) : ∃ c', v.Holds (w.next st) c' ∧ All Dead c' := by
  have hview := h.view hs
  have hw : w.next st = ⟨some s.session.lock, s.host⟩ := by
    rw [World.next, hi]
    dsimp only
    rw [hs]
    rfl
  have hdead : All Dead ⟨none, c.sealed, c.stored⟩ :=
    ⟨⟨fun _ hm => (by cases hm), ho.1 _ hview.sealed⟩, ho.2 _ hview.stored⟩
  refine ⟨⟨none, c.sealed, c.stored⟩, ?_, hdead⟩
  rw [hw]
  exact ⟨hview.stored, fun s' hs' => by cases hs'; exact hview.drop⟩

omit [Crypto] [VaultJson] [AuditJson] [LawfulCrypto] [LawfulVaultJson] in
theorem Call.not_locks {α : Type} {call : Call α} (hp : ¬(⟨st.conditions, .call call⟩ : Step).Persists s)
    (hl : (Input.call call) ≠ .call .lock) : ¬call.Locks s := by
  rintro (⟨hi, hidle⟩ | hlocks)
  · exact hp (Or.inr ⟨α, call, rfl, hi, hidle⟩)
  · cases call with
    | lock => exact hl rfl
    | lockPersist => exact hp (Or.inl rfl)
    | _ => exact hlocks

/-- A step keeps settled copies settled. -/
theorem Capability.Settled.turn (hl : C.Settled w run c) (h : v.Holds (w.after run) c)
    (honest : st.Honest v (w.after run)) (hst : st.Settles v (w.after run))
    (hsane : ∀ s' d, ((w.after run).next st).session = some s' → s'.document = some d → d.Sane) :
    ∃ c', v.Holds ((w.after run).next st) c' ∧ C.Settled w (run ++ [st]) c' := by
  by_cases hlock : ∃ s, (w.after run).sys st.conditions = some s ∧ (st.Persists s ∨ st.input = .call .lock)
  · obtain ⟨s, hs, hp | hi⟩ := hlock
    · obtain ⟨c', h', hdead⟩ := h.locks hs hp (hst.locks s hs hp)
      exact ⟨c', h', settled_of_dead hdead⟩
    · obtain ⟨c', h', hdead⟩ := h.drops hi hs (hst.drops hi s hs)
      exact ⟨c', h', settled_of_dead hdead⟩
  obtain ⟨c', h', ht⟩ := h.next honest
  have hnested : ∀ now, (∀ st' ∈ run ++ [st], st'.conditions.wall ≤ now) → Nested (C.items now) c' := by
    intro now hnow
    have hold := hl.nested now fun st' hst' => hnow st' (List.mem_append_left _ hst')
    have hwall : st.conditions.wall ≤ now := hnow st (by simp)
    cases ht with
    | none => exact hold
    | @call _ call s _ hi hs _ hc =>
      refine hc.nested ?_ ?_ hold
      · rintro m d ⟨a, head, t, ha, -, rfl, hrec, hfits⟩
        refine hfits (hst.stores s hs (fun hp => hlock ⟨s, hs, Or.inl hp⟩) a ?_ head t hrec)
        rw [Step.Attempts, hi]
        exact ⟨s, hs, ha⟩
      · rintro m m' ⟨-, rfl⟩
        rw [C.purge hwall]
    | restart => exact nested_reload
  have hspares : ∀ now, (∀ st' ∈ run ++ [st], st'.conditions.wall ≤ now) →
      All (fun d => ∀ x ∈ C.items now d, C.Spares x (w.after run) st) c' := by
    intro now hnow
    have hwall : st.conditions.wall ≤ now := hnow st (by simp)
    refine (hnested now hnow).all.mono fun d hd x hx => ⟨fun s' hs' hnone => ?_, fun s' d' hs' hd' => ?_⟩
    · have hmem : c'.memory = none := (h'.session s' hs').memory.symm.trans hnone
      cases ht with
      | none hn => rw [hn] at hs'; cases hs'
      | @call _ call s _ hi hs _ hc =>
        refine Or.inr fun s0 hs0 => ?_
        rw [World.session_of_sys hs, Option.some.injEq] at hs0
        subst hs0
        by_contra hdoc
        have hp : ¬(⟨st.conditions, .call call⟩ : Step).Persists s := by
          rw [← hi]
          exact fun hp => hlock ⟨s, hs, Or.inl hp⟩
        have hl : Input.call call ≠ .call .lock := by
          rw [← hi]
          exact fun hi => hlock ⟨s, hs, Or.inr hi⟩
        refine hc.unlocked (Call.not_locks hp hl) ?_ hmem
        rw [← (h.view hs).memory]
        exact hdoc
      | restart hi => exact Or.inl ⟨_, hi⟩
    · exact ⟨hsane s' d' hs' hd', C.later hwall d' (hd d' ((h'.session s' hs').memory.symm.trans hd') hx)⟩
  refine ⟨c', h', hnested, fun now hnow => ?_⟩
  have hold := hl.lasts now fun st' hst' => hnow st' (List.mem_append_left _ hst')
  have horigin : All (fun d => ∀ x ∈ C.items now d, C.Lasts w run x ∨ C.made x (w.after run) st) c' := by
    have hold' := hold.mono fun d (hd : ∀ x ∈ C.items now d, C.Lasts w run x) x hx =>
      (Or.inl (hd x hx) : C.Lasts w run x ∨ C.made x (w.after run) st)
    cases ht with
    | none => exact hold'
    | @call _ call s _ hi hs _ hc =>
      refine hc.all ?_ ?_ hold'
      · rintro d ⟨a, head, ha, rfl⟩ x hx
        have hattempts : st.Attempts (w.after run) a := by
          rw [Step.Attempts, hi]
          exact ⟨s, hs, ha⟩
        obtain ⟨s1, doc, hs1, hdoc, hitems⟩ := C.attempts hattempts
        rw [C.withHead] at hx
        refine (hitems now x hx).imp_left fun hx => hold.memory doc ?_ x hx
        rw [← (h.view hs1).memory]
        exact hdoc
      · rintro m m' ⟨-, rfl⟩ hm x hx
        rw [C.purge (hnow st (by simp))] at hx
        exact hm x hx
    | restart => exact hold'.reload
  refine (horigin.and (hspares now hnow)).mono fun d hd x hx => ?_
  obtain ⟨ho, hs⟩ := hd
  rcases ho x hx with hlasts | hmade
  · exact hlasts.append ⟨hs x hx, trivial⟩
  · exact World.since_last ⟨hmade, hs x hx⟩

/-- The history of what is usable after a run of a created vault. -/
theorem Capability.lasts_run (C : Capability β) {passphrase : Bytes} {idleTimeout : Nat} {h h' : Host} {s : Session}
    (hr : (Session.create passphrase idleTimeout).run h = (.ok s, h')) :
    ∃ u, s.unlocked = some u ∧ ∀ run, World.Along (fun w st => st.Honest ⟨s.envelope.header, u.keys⟩ w ∧
      st.Settles ⟨s.envelope.header, u.keys⟩ w) ⟨some s, h'⟩ run →
      ∃ c, Vault.Holds ⟨s.envelope.header, u.keys⟩ (World.after ⟨some s, h'⟩ run) c ∧ C.Settled ⟨some s, h'⟩ run c := by
  obtain ⟨u, x, entry, hc⟩ := create_eq_ok hr
  obtain ⟨u', hu', hkept⟩ := kept_sane.created sane_new hr
  rw [hc.unlocked, Option.some.injEq] at hu'
  subst hu'
  refine ⟨u, hc.unlocked, fun run => ?_⟩
  induction run using List.reverseRecOn with
  | nil =>
    intro _
    have hdead : Dead u.doc := by
      rw [hc.doc]
      exact ⟨fun _ hl => (nomatch hl), fun _ ha => nomatch ha⟩
    exact ⟨_, hc.holds, settled_of_dead ⟨⟨fun _ hm => by cases hm; exact hdead, hdead⟩, hdead⟩⟩
  | append_singleton run st ih =>
    intro hrun
    obtain ⟨hpre, hst, -⟩ := World.Along.append.mp hrun
    obtain ⟨c, h1, hl⟩ := ih hpre
    have hhonest := hrun.mono fun _ _ h => h.1
    have hsane : ∀ s' d, ((World.after ⟨some s, h'⟩ run).next st).session = some s' → s'.document = some d →
      d.Sane := by
      intro s' d hs' hd
      obtain ⟨c', hholds, hall⟩ := hkept (run ++ [st]) hhonest
      rw [World.after_append, World.after_cons, World.after_nil] at hholds
      exact hall.memory d ((hholds.session s' hs').memory.symm.trans hd)
    obtain ⟨c', h', hl'⟩ := hl.turn h1 hst.1 hst.2 hsane
    rw [World.after_append, World.after_cons, World.after_nil]
    exact ⟨c', h', hl'⟩

end

end SecretsVault
