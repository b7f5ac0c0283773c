import Workflow.Proofs.Catalog.Attempts
import Mathlib.Logic.Relation
/-!
A catalog that several clients share. Storing an outcome takes two changes, and between the two
changes of one client others may make theirs. However the changes interleave, every attempted path
has an answer in the end. It has two only if an attempt that compiled and one that failed were both
halfway at some point.
-/

namespace Workflow

namespace Catalog

def Attempt.compiled (a : Attempt) : Bool :=
  a.2.isOk

/-- The first change of an attempt. It takes the path out of the table where the outcome does not
belong. -/
def Attempt.withdrawal : Attempt → Change
  | (path, .ok _) => .dropFailure path
  | (path, .error _) => .dropEntry path

def Attempt.entry : Attempt → Change
  | (path, .ok artifacts) => .putEntry path artifacts
  | (path, .error message) => .putFailure path message

theorem changes_eq (a : Attempt) : changes a.1 a.2 = [Attempt.withdrawal a, Attempt.entry a] := by
  obtain ⟨path, o⟩ := a
  cases o <;> rfl

def shows (c : Catalog) (compiled : Bool) (path : Path) : Bool :=
  if compiled then (c.get? path).isSome else (c.failure? path).isSome

theorem shows_withdrawal (c : Catalog) (a : Attempt) (b : Bool) (path : Path) :
    (c.change (Attempt.withdrawal a)).shows b path =
      if path = a.1 ∧ b ≠ Attempt.compiled a then false else c.shows b path := by
  obtain ⟨q, o⟩ := a
  by_cases hq : path = q <;> cases o <;> cases b <;>
    simp [Attempt.withdrawal, Attempt.compiled, Except.isOk, Except.toBool, shows, change, get?,
      failure?, Table.get?_erase, hq]

theorem shows_entry (c : Catalog) (a : Attempt) (b : Bool) (path : Path) :
    (c.change (Attempt.entry a)).shows b path =
      if path = a.1 ∧ b = Attempt.compiled a then true else c.shows b path := by
  obtain ⟨q, o⟩ := a
  by_cases hq : path = q <;> cases o <;> cases b <;>
    simp [Attempt.entry, Attempt.compiled, Except.isOk, Except.toBool, shows, change, get?,
      failure?, Table.get?_insert, hq]

/-- A client that stores the outcome of an attempt, with the changes that it has yet to make. -/
structure Client where
  attempt : Attempt
  left : List Change

namespace Client

def start (a : Attempt) : Client :=
  ⟨a, changes a.1 a.2⟩

def midway (a : Attempt) : Client :=
  ⟨a, [Attempt.entry a]⟩

def ended (a : Attempt) : Client :=
  ⟨a, []⟩

def Orderly (k : Client) : Prop :=
  k.left <:+ changes k.attempt.1 k.attempt.2

theorem orderly_start (a : Attempt) : (start a).Orderly :=
  List.suffix_refl _

/-- The next change of a client is its first, or its second and then nothing is left. -/
theorem Orderly.next {a : Attempt} {x : Change} {left : List Change} (h : Orderly ⟨a, x :: left⟩) :
    x = Attempt.withdrawal a ∧ left = [Attempt.entry a] ∨ x = Attempt.entry a ∧ left = [] := by
  simp only [Orderly, changes_eq, List.suffix_cons_iff, List.cons.injEq, List.suffix_nil,
    reduceCtorEq, or_false] at h
  exact h

theorem Orderly.tail {a : Attempt} {x : Change} {left : List Change} (h : Orderly ⟨a, x :: left⟩) :
    Orderly ⟨a, left⟩ :=
  (List.suffix_cons x left).trans h

end Client

structure Shared where
  catalog : Catalog
  clients : List Client

namespace Shared

def start (c : Catalog) (attempts : List Attempt) : Shared :=
  ⟨c, attempts.map Client.start⟩

inductive Moves : Shared → Shared → Prop
  | next (c : Catalog) (before after : List Client) (a : Attempt) (x : Change)
      (left : List Change) :
      Moves ⟨c, before ++ ⟨a, x :: left⟩ :: after⟩ ⟨c.change x, before ++ ⟨a, left⟩ :: after⟩

/-- The clients make changes one after another, in any order among them. -/
abbrev Reaches : Shared → Shared → Prop :=
  Relation.ReflTransGen Moves

def Finished (s : Shared) : Prop :=
  ∀ k ∈ s.clients, k.left = []

def Orderly (s : Shared) : Prop :=
  ∀ k ∈ s.clients, k.Orderly

/-- Two clients of a path are midway, of which one compiled and the other failed. -/
def Clash (s : Shared) (path : Path) : Prop :=
  ∃ a b : Attempt, Client.midway a ∈ s.clients ∧ Client.midway b ∈ s.clients ∧ a.1 = path ∧
    b.1 = path ∧
    Attempt.compiled a = true ∧ Attempt.compiled b = false

/-- Once a client of a path has ended, the path has an answer, or a client is about to give it
one. -/
def Answered (s : Shared) (path : Path) : Prop :=
  ∀ a : Attempt, a.1 = path → Client.ended a ∈ s.clients →
    (∃ b, s.catalog.shows b path = true) ∨ ∃ a' : Attempt, a'.1 = path ∧
      Client.midway a' ∈ s.clients

/-- A path has one answer at most, and none of the kind that a client midway has withdrawn. -/
structure Apart (s : Shared) (path : Path) : Prop where
  single : s.catalog.shows true path = false ∨ s.catalog.shows false path = false
  withdrawn : ∀ a : Attempt, Client.midway a ∈ s.clients → a.1 = path →
    s.catalog.shows (!Attempt.compiled a) path = false

structure Replaces (s t : Shared) (old new : Client) : Prop where
  mem_old : old ∈ s.clients
  mem_new : new ∈ t.clients
  kept : ∀ k ∈ s.clients, k ∈ t.clients ∨ k = old
  known : ∀ k ∈ t.clients, k ∈ s.clients ∨ k = new

/-- All that a move can be: the first change of a client, or its second. -/
theorem Moves.cases {s t : Shared} (h : Moves s t) (orderly : s.Orderly) : ∃ a : Attempt,
    t.catalog = s.catalog.change (Attempt.withdrawal a) ∧ Replaces s t (Client.start a)
    (Client.midway a) ∨
    t.catalog = s.catalog.change (Attempt.entry a) ∧ Replaces s t (Client.midway a)
    (Client.ended a) := by
  cases h with
  | next c before after a x left =>
    have hreplaces : Replaces ⟨c, before ++ ⟨a, x :: left⟩ :: after⟩
        ⟨c.change x, before ++ ⟨a, left⟩ :: after⟩
        ⟨a, x :: left⟩ ⟨a, left⟩ := by
      constructor <;> simp <;> tauto
    have hnext := (orderly ⟨a, x :: left⟩ (by simp)).next
    refine ⟨a, ?_⟩
    rcases hnext with ⟨rfl, rfl⟩ | ⟨rfl, rfl⟩
    · left
      rw [Client.start, changes_eq]
      exact ⟨rfl, hreplaces⟩
    · right
      exact ⟨rfl, hreplaces⟩

theorem orderly_start (c : Catalog) (attempts : List Attempt) : (start c attempts).Orderly := by
  intro k hk
  obtain ⟨a, -, rfl⟩ := List.mem_map.1 hk
  exact Client.orderly_start a

theorem Orderly.move {s t : Shared} (orderly : s.Orderly) (h : Moves s t) : t.Orderly := by
  cases h with
  | next c before after a x left =>
    intro k hk
    rcases List.mem_append.1 hk with hk | hk
    · exact orderly k (List.mem_append_left _ hk)
    · rcases List.mem_cons.1 hk with rfl | hk
      · exact (orderly ⟨a, x :: left⟩ (by simp)).tail
      · exact orderly k (by simp [hk])

theorem Orderly.reach {s t : Shared} (orderly : s.Orderly) (h : Reaches s t) : t.Orderly := by
  induction h with
  | refl => exact orderly
  | tail _ hmove ih => exact ih.move hmove

theorem answered_start (c : Catalog) (attempts : List Attempt) (path : Path) :
    (start c attempts).Answered path := by
  intro a _ ha
  obtain ⟨a', -, h⟩ := List.mem_map.1 ha
  simp [Client.start, Client.ended, changes_eq] at h

/-- A withdrawal of the answer to a path is made by a client that will give it another one. -/
theorem Answered.move {s t : Shared} {path : Path} (h : s.Answered path) (orderly : s.Orderly)
    (hmove : Moves s t) : t.Answered path := by
  intro a ha hended
  obtain ⟨m, ⟨hcatalog, hreplaces⟩ | ⟨hcatalog, hreplaces⟩⟩ := hmove.cases orderly
  -- A withdrawal: on this path it leaves its client midway, on another it changes nothing here.
  · by_cases hm : m.1 = path
    · exact Or.inr ⟨m, hm, hreplaces.mem_new⟩
    · have hbefore : Client.ended a ∈ s.clients :=
        (hreplaces.known _ hended).resolve_right (by simp [Client.ended, Client.midway])
      rcases h a ha hbefore with ⟨b, hb⟩ | ⟨a', ha', hmid⟩
      · left
        refine ⟨b, ?_⟩
        rw [hcatalog, shows_withdrawal, if_neg fun hp => hm hp.1.symm, hb]
      · right
        refine ⟨a', ha', (hreplaces.kept _ hmid).resolve_right ?_⟩
        simp [Client.midway, Client.start, changes_eq]
  -- An entry: on this path it is an answer.
  · by_cases hm : m.1 = path
    · left
      refine ⟨Attempt.compiled m, ?_⟩
      rw [hcatalog, shows_entry, if_pos ⟨hm.symm, rfl⟩]
    · have hbefore : Client.ended a ∈ s.clients := by
        refine (hreplaces.known _ hended).resolve_right ?_
        intro heq
        exact hm (congrArg (fun k => k.attempt.1) heq ▸ ha)
      rcases h a ha hbefore with ⟨b, hb⟩ | ⟨a', ha', hmid⟩
      · left
        refine ⟨b, ?_⟩
        rw [hcatalog, shows_entry, if_neg fun hp => hm hp.1.symm, hb]
      · right
        refine ⟨a', ha', (hreplaces.kept _ hmid).resolve_right ?_⟩
        intro heq
        exact hm (congrArg (fun k => k.attempt.1) heq ▸ ha')

theorem Answered.reach {s t : Shared} {path : Path} (h : s.Answered path) (orderly : s.Orderly)
    (hreach : Reaches s t) : t.Answered path := by
  induction hreach with
  | refl => exact h
  | tail hbefore hmove ih => exact ih.move (orderly.reach hbefore) hmove

/-- Where no attempts clash, a move leaves a path with one answer at most. -/
theorem Apart.move {s t : Shared} {path : Path} (h : s.Apart path) (orderly : s.Orderly)
    (noClash : ¬s.Clash path) (hmove : Moves s t) : t.Apart path := by
  obtain ⟨m, ⟨hcatalog, hreplaces⟩ | ⟨hcatalog, hreplaces⟩⟩ := hmove.cases orderly
  · have hshows (b : Bool) : s.catalog.shows b path = false → t.catalog.shows b path = false := by
      intro hb
      rw [hcatalog, shows_withdrawal, hb, ite_self]
    refine ⟨h.single.imp (hshows true) (hshows false), ?_⟩
    intro a hmid ha
    rcases hreplaces.known _ hmid with hmid | heq
    · exact hshows _ (h.withdrawn a hmid ha)
    · -- The client that moved is now midway, and this change withdrew the other kind of answer.
      obtain rfl : a = m := congrArg Client.attempt heq
      rw [hcatalog, shows_withdrawal, if_pos ⟨ha.symm, by simp⟩]
  · have hothers : ∀ a : Attempt, Client.midway a ∈ t.clients → Client.midway a ∈ s.clients := by
      intro a hmid
      exact (hreplaces.known _ hmid).resolve_right (by simp [Client.midway, Client.ended])
    by_cases hm : m.1 = path
    · have hwithdrawn := h.withdrawn m hreplaces.mem_old hm
      have hstill : t.catalog.shows (!Attempt.compiled m) path = false := by
        rw [hcatalog, shows_entry, if_neg (by simp), hwithdrawn]
      refine ⟨?_, ?_⟩
      · cases hkind : Attempt.compiled m with
        | true => exact Or.inr (by simpa [hkind] using hstill)
        | false => exact Or.inl (by simpa [hkind] using hstill)
      · intro a hmid ha
        -- Another client midway on this path is of the same kind, as there is no clash.
        have hsame : Attempt.compiled a = Attempt.compiled m := by
          by_contra hne
          apply noClash
          cases hkind : Attempt.compiled m with
          | true =>
            exact ⟨m, a, hreplaces.mem_old, hothers a hmid, hm, ha,
              hkind, by simpa [hkind] using hne⟩
          | false =>
            exact ⟨a, m, hothers a hmid, hreplaces.mem_old, ha,
              hm, by simpa [hkind] using hne, hkind⟩
        rw [hsame]
        exact hstill
    · have hsame (b : Bool) : t.catalog.shows b path = s.catalog.shows b path := by
        rw [hcatalog, shows_entry, if_neg fun hp => hm hp.1.symm]
      refine ⟨by simpa only [hsame] using h.single, ?_⟩
      intro a hmid ha
      rw [hsame]
      exact h.withdrawn a (hothers a hmid) ha

/-- A run either passes through a clash or leaves a path with one answer at most. -/
theorem Apart.reach {s t : Shared} {path : Path} (h : s.Apart path) (orderly : s.Orderly)
    (hreach : Reaches s t) : t.Apart path ∨ ∃ u, Reaches s u ∧ Reaches u t ∧ u.Clash path := by
  induction hreach with
  | refl => exact Or.inl h
  | @tail u t hbefore hmove ih =>
    rcases ih with hu | ⟨v, hv, hvu, hclash⟩
    · by_cases hclash : u.Clash path
      · exact Or.inr ⟨u, hbefore, .single hmove, hclash⟩
      · exact Or.inl (hu.move (orderly.reach hbefore) hclash hmove)
    · exact Or.inr ⟨v, hv, hvu.tail hmove, hclash⟩

theorem apart_start (settings : Settings) (attempts : List Attempt) (path : Path) :
    (start { settings } attempts).Apart path := by
  refine ⟨Or.inl rfl, ?_⟩
  intro a _ _
  cases Attempt.compiled a <;> rfl

theorem map_attempt_of_reaches {s t : Shared} (h : Reaches s t) :
    t.clients.map Client.attempt = s.clients.map Client.attempt := by
  induction h with
  | refl => rfl
  | tail _ hmove ih =>
    rw [← ih]
    cases hmove
    simp

/-- Clients may make their changes one after the other; then outcomes are stored one after the
other. -/
theorem reaches_record (c : Catalog) (done rest : List Attempt) :
    Reaches ⟨c, done.map Client.ended ++ rest.map Client.start⟩
      ⟨c.record rest, (done ++ rest).map Client.ended⟩ := by
  induction rest generalizing c done with
  | nil =>
    rw [List.map_nil, List.append_nil, List.append_nil]
    exact .refl
  | cons a rest ih =>
    have hstore : (c.change (Attempt.withdrawal a)).change (Attempt.entry a) = c.store a.1 a.2 := by
      rw [store, changes_eq]
      rfl
    -- The client makes both changes before the next client makes one.
    have hfirst := Moves.next c (done.map Client.ended) (rest.map Client.start) a
      (Attempt.withdrawal a) [Attempt.entry a]
    have hsecond := Moves.next (c.change (Attempt.withdrawal a)) (done.map Client.ended)
      (rest.map Client.start) a (Attempt.entry a) []
    have hrest := ih (c.store a.1 a.2) (done ++ [a])
    rw [← changes_eq] at hfirst
    rw [hstore] at hsecond
    rw [List.map_append, List.append_assoc, List.append_assoc] at hrest
    exact .head hfirst (.head hsecond hrest)

theorem shows_true (c : Catalog) (path : Path) : c.shows true path = (c.get? path).isSome := rfl

theorem shows_false (c : Catalog) (path : Path) :
    c.shows false path = (c.failure? path).isSome := rfl

/-- After any number of clients have made all their changes on a new catalog, in whatever order,
every path that was attempted has artifacts or a failure. A path has both only if on the way an
attempt that compiled and one that failed were midway at the same time. -/
theorem shared_answers (settings : Settings) (attempts : List Attempt) {t : Shared}
    (run : Reaches (start { settings } attempts) t) (finished : t.Finished) :
    (∀ a ∈ attempts, t.catalog.get? a.1 ≠ none ∨ t.catalog.failure? a.1 ≠ none) ∧
      ∀ path, t.catalog.get? path = none ∨ t.catalog.failure? path = none ∨
        ∃ u, Reaches (start { settings } attempts) u ∧ Reaches u t ∧ u.Clash path := by
  -- Two invariants of runs: an attempt that ended is answered unless a client is midway, and both
  -- answers at once need a clash.
  have orderly := orderly_start { settings } attempts
  refine ⟨?_, ?_⟩
  · intro a ha
    have hattempts : t.clients.map Client.attempt = attempts := by
      rw [map_attempt_of_reaches run, start, List.map_map]
      exact List.map_id attempts
    obtain ⟨k, hk, rfl⟩ := List.mem_map.1 (hattempts ▸ ha)
    have hended : Client.ended k.attempt ∈ t.clients := by
      have heq : Client.ended k.attempt = k := by rw [Client.ended, ← finished k hk]
      rwa [heq]
    have hanswered := (answered_start { settings } attempts k.attempt.1).reach orderly run
    rcases hanswered k.attempt rfl hended with ⟨b, hb⟩ | ⟨a', -, hmid⟩
    · cases b with
      | true =>
        left
        rw [shows_true, Option.isSome_iff_ne_none] at hb
        exact hb
      | false =>
        right
        rw [shows_false, Option.isSome_iff_ne_none] at hb
        exact hb
    · have hleft := finished _ hmid
      simp [Client.midway] at hleft
  · intro path
    rcases (apart_start settings attempts path).reach orderly run with hapart | hclash
    · rcases hapart.single with h | h
      · left
        simpa [shows_true] using h
      · right
        left
        simpa [shows_false] using h
    · exact Or.inr (Or.inr hclash)

/-- Attempts for two paths, one of them first without success and then with it. -/
def retried : List Attempt :=
  [(Path.ofText "p.yaml", ({} : Settings).verdict ""),
    (Path.ofText "p.yaml", ({} : Settings).verdict "process:\n  name: p\n"),
    (Path.ofText "q.yaml", ({} : Settings).verdict "process:\n")]

theorem shared_answers_retried :
    let s := start { settings := {} } retried
    let t : Shared := ⟨Catalog.record { settings := {} } retried, retried.map Client.ended⟩
    Reaches s t ∧ t.Finished ∧
      (∀ a ∈ retried, t.catalog.get? a.1 ≠ none ∨ t.catalog.failure? a.1 ≠ none) ∧
      ∀ path, t.catalog.get? path = none ∨ t.catalog.failure? path = none ∨
        ∃ u, Reaches s u ∧ Reaches u t ∧ u.Clash path := by
  intro s t
  have run : Reaches s t := reaches_record { settings := {} } [] retried
  have finished : t.Finished := by
    intro k hk
    obtain ⟨a, -, rfl⟩ := List.mem_map.1 hk
    rfl
  exact ⟨run, finished, shared_answers {} retried run finished⟩

/-- If two attempts for one path both make their first change before either makes its second, the
path is left with artifacts and a failure. -/
theorem exists_reaches_both (c : Catalog) (path : Path) {good bad : Outcome}
    (hgood : good.isOk = true) (hbad : bad.isOk = false) :
    ∃ t, Reaches (start c [(path, good), (path, bad)]) t ∧ t.Finished ∧ t.catalog.get? path ≠ none ∧
      t.catalog.failure? path ≠ none := by
  let a : Attempt := (path, good)
  let b : Attempt := (path, bad)
  let c₁ := c.change (Attempt.withdrawal a)
  let c₂ := c₁.change (Attempt.withdrawal b)
  let c₃ := c₂.change (Attempt.entry a)
  let c₄ := c₃.change (Attempt.entry b)
  -- Both withdrawals come first, so that neither takes out what the other client enters.
  have h₁ := Moves.next c [] [Client.start b] a (Attempt.withdrawal a) [Attempt.entry a]
  have h₂ := Moves.next c₁ [Client.midway a] [] b (Attempt.withdrawal b) [Attempt.entry b]
  have h₃ := Moves.next c₂ [] [Client.midway b] a (Attempt.entry a) []
  have h₄ := Moves.next c₃ [Client.ended a] [] b (Attempt.entry b) []
  rw [← changes_eq] at h₁ h₂
  refine ⟨⟨c₄, [Client.ended a, Client.ended b]⟩,
    .head h₁ (.head h₂ (.head h₃ (.single h₄))), ?_, ?_, ?_⟩
  · intro k hk
    simp only [List.mem_cons, List.not_mem_nil, or_false] at hk
    rcases hk with rfl | rfl <;> rfl
  · have hkinds : ¬(path = b.1 ∧ true = Attempt.compiled b) := by simp [b, Attempt.compiled, hbad]
    have hshows : c₄.shows true path = true := by
      rw [shows_entry, if_neg hkinds, shows_entry, if_pos ⟨rfl, hgood.symm⟩]
    rwa [shows_true, Option.isSome_iff_ne_none] at hshows
  · have hshows : c₄.shows false path = true := by
      rw [shows_entry, if_pos ⟨rfl, hbad.symm⟩]
    rwa [shows_false, Option.isSome_iff_ne_none] at hshows

/-- Two texts under one path, of which one compiles, can leave the path with artifacts and a
failure. -/
theorem not_shared_exclusive :
    ∃ t, Reaches (start { settings := {} }
      [(Path.ofText "p.yaml", ({} : Settings).verdict "process:\n  name: p\n"),
        (Path.ofText "p.yaml", ({} : Settings).verdict "")]) t ∧
      t.Finished ∧ t.catalog.get? (Path.ofText "p.yaml") ≠ none ∧
      t.catalog.failure? (Path.ofText "p.yaml") ≠ none := by
  have hgood : (({} : Settings).verdict "process:\n  name: p\n").isOk = true := by decide +kernel
  have hbad : (({} : Settings).verdict "").isOk = false := by decide +kernel
  exact exists_reaches_both { settings := {} } (Path.ofText "p.yaml") hgood hbad

end Shared

end Catalog

end Workflow
