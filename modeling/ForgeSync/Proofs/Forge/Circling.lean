import ForgeSync.Convergence.Files
import ForgeSync.Proofs.Action.Calculus
import Mathlib.Data.Finset.Card
import Mathlib.Data.Finset.Image
import Mathlib.Logic.Relation

/-!
# Listings that circle

A loop over the pages of a listing goes where each page tells it to go. It stops where a page names
no other page, or only the one that was asked for; what it has seen before it does not remember. So
of the listings with finitely many cursors it comes to the end of exactly those in which no page
leads back to itself over another one, and it walks around in all others.

Main statements: `endsUnlessCircling` speaks of any such loop, `walkTree_ended_iff` of the listing
of a repository's files.
-/

namespace ForgeSync.Paging

open Relation (ReflTransGen TransGen)

/-! ## Walks along a relation -/

section Walks

variable {α : Type} {R : α → α → Prop} {a b : α}

/-- Every walk along a relation has come to its end after fewer than so many steps. -/
def EndsWithin (R : α → α → Prop) : Nat → α → Prop
  | 0, _ => False
  | n + 1, a => ∀ b, R a b → EndsWithin R n b

/-- A walk gets to a point from which it can get back to it. -/
def Circles (R : α → α → Prop) (a : α) : Prop :=
  ∃ b, ReflTransGen R a b ∧ TransGen R b b

theorem EndsWithin.mono {m n : Nat} (h : EndsWithin R m a) (hle : m ≤ n) :
    EndsWithin R n a := by
  induction m generalizing n a with
  | zero => exact h.elim
  | succ m ih =>
    obtain ⟨n, rfl⟩ : ∃ k, n = k + 1 := ⟨n - 1, by omega⟩
    exact fun b hb => ih (h b hb) (by omega)

theorem Circles.head (hab : R a b) : Circles R b → Circles R a
  | ⟨c, hbc, hcc⟩ => ⟨c, .head hab hbc, hcc⟩

/-- Who walks around does so after one step as well. -/
theorem Circles.exists_step (h : Circles R a) : ∃ b, R a b ∧ Circles R b := by
  obtain ⟨c, hac, hcc⟩ := h
  rcases hac.cases_head with rfl | ⟨b, hab, hbc⟩
  · obtain ⟨b, hab, hba⟩ := TransGen.head'_iff.1 hcc
    exact ⟨b, hab, a, hba, hcc⟩
  · exact ⟨b, hab, c, hbc, hcc⟩

theorem EndsWithin.not_circles {n : Nat} (h : EndsWithin R n a) : ¬Circles R a := by
  induction n generalizing a with
  | zero => exact h.elim
  | succ n ih =>
    intro hcircles
    obtain ⟨b, hab, hb⟩ := hcircles.exists_step
    exact ih (h b hab) hb

/-- A walk that does not walk around has one point less before it after every step. -/
theorem endsWithin_of_not_circles [DecidableEq α] (points : Finset α)
    (hpoints : ∀ b, TransGen R a b → b ∈ points) (h : ¬Circles R a) :
    EndsWithin R (points.card + 1) a := by
  induction hcard : points.card generalizing a points with
  | zero =>
    intro b hab
    have hb : b ∈ points := hpoints b (.single hab)
    simp [Finset.card_eq_zero.1 hcard] at hb
  | succ n ih =>
    intro b hab
    have hb : b ∈ points := hpoints b (.single hab)
    refine ih (points.erase b) (fun c hbc => ?_) (mt (Circles.head hab) h)
      (by rw [Finset.card_erase_of_mem hb, hcard, Nat.add_sub_cancel])
    have hne : c ≠ b := by
      rintro rfl
      exact h ⟨c, .single hab, hbc⟩
    exact Finset.mem_erase.2 ⟨hne, hpoints c (.head hab hbc)⟩

end Walks

/-! ## Loops over pages -/

section Loops

variable {named : Option String → Option String} {cursor : Option String}

/-- A loop that has asked with one cursor goes on with another one: with the one that the page
names, unless that is the same. -/
def GoesOn (named : Option String → Option String) (cursor next : Option String) : Prop :=
  next = named cursor ∧ next ≠ none ∧ next ≠ cursor

/-- One turn of a loop takes one page of its budget. -/
theorem endsWithin_succ_iff {step : Option String}
    (hstep : ∀ next, GoesOn named cursor (some next) ↔ step = some next) (n : Nat) :
    EndsWithin (GoesOn named) (n + 1) cursor ↔
      ∀ next, step = some next → EndsWithin (GoesOn named) n (some next) := by
  constructor
  · exact fun h next hnext => h _ ((hstep next).2 hnext)
  · rintro h (_ | next) hgoes
    · exact absurd rfl hgoes.2.1
    · exact h next ((hstep next).1 hgoes)

/-- A loop ends with a page that names nothing. -/
theorem endsWithin_of_named_eq_none (h : named cursor = none) (n : Nat) :
    EndsWithin (GoesOn named) (n + 1) cursor := by
  rintro next ⟨rfl, hsome, -⟩
  exact absurd h hsome

theorem exists_named_of_transGen {next : Option String} (h : TransGen (GoesOn named) cursor next) :
    ∃ before name, named before = some name ∧ next = some name := by
  obtain ⟨before, -, hnamed, hsome, -⟩ := TransGen.tail'_iff.1 h
  obtain ⟨name, rfl⟩ := Option.ne_none_iff_exists'.1 hsome
  exact ⟨before, name, hnamed.symm, rfl⟩

/-- The cursors that pages name. -/
def namedBy {ε β : Type} (nextPage : β → Option String) (pages : Option String → Except ε β)
    (cursor : Option String) : Option String :=
  match pages cursor with
  | .ok page => nextPage page
  | .error _ => none

/-- After a page a loop goes on with the cursor that the page names, unless it has just used it. -/
theorem goesOn_namedBy_iff {ε β : Type} {nextPage : β → Option String}
    {pages : Option String → Except ε β} {page : β} (h : pages cursor = .ok page) (next : String) :
    GoesOn (namedBy nextPage pages) cursor (some next) ↔
      (nextPage page).filter (fun next => cursor ≠ some next) = some next := by
  simp only [GoesOn, namedBy, h, Option.filter_eq_some_iff, decide_eq_true_eq]
  grind

/-- A loop walks around between two pages that name each other. -/
theorem circles_of_pair (first second : String) (hstart : named none = some first)
    (hfirst : named (some first) = some second) (hsecond : named (some second) = some first)
    (hne : first ≠ second) : Circles (GoesOn named) none := by
  have hto : GoesOn named none (some first) := ⟨hstart.symm, by simp, by simp⟩
  have hon : GoesOn named (some first) (some second) :=
    ⟨hfirst.symm, by simp, by simpa using hne.symm⟩
  have hback : GoesOn named (some second) (some first) :=
    ⟨hsecond.symm, by simp, by simpa using hne⟩
  exact ⟨some first, .single hto, .tail (.single hon) hback⟩

/-- A loop is at its end one page after it has been asked for every cursor, unless it walks
around; then it never is. -/
structure EndsUnlessCircling (named : Option String → Option String) (cursors : Nat)
    (Ended : Nat → Prop) : Prop where
  of_not_circles : ¬Circles (GoesOn named) none → ∀ budget, cursors < budget → Ended budget
  of_circles : Circles (GoesOn named) none → ∀ budget, ¬Ended budget

/-- A loop over pages that name only so many cursors cannot but end or walk around. -/
theorem endsUnlessCircling {names : Finset String} {Ended : Nat → Prop}
    (hnames : ∀ cursor name, named cursor = some name → name ∈ names)
    (hended : ∀ budget, Ended budget ↔ EndsWithin (GoesOn named) budget none) :
    EndsUnlessCircling named names.card Ended := by
  have hpoints : ∀ next, TransGen (GoesOn named) none next → next ∈ names.image some := by
    intro next hnext
    obtain ⟨before, name, hnamed, rfl⟩ := exists_named_of_transGen hnext
    exact Finset.mem_image_of_mem some (hnames before name hnamed)
  have hcard : (names.image some).card ≤ names.card := Finset.card_image_le
  constructor
  · intro h budget hbudget
    exact (hended budget).2 ((endsWithin_of_not_circles _ hpoints h).mono (by omega))
  · intro h budget hbudget
    exact ((hended budget).1 hbudget).not_circles h

end Loops

/-! ## The listing of a repository's files -/

section Files

/-- The cursor that a page of files names; an empty text is none. -/
def cursorOf (page : TreePage) : Option String :=
  page.nextPage.filter (!·.isEmpty)

variable {σ : Type} {forge : Forge σ} {path : String}
  {pages : Option String → Except Failure TreePage}

theorem nextCursor_eq_filter (cursor : Option String) (page : TreePage) :
    Forge.nextCursor cursor page = (cursorOf page).filter fun next => cursor ≠ some next := by
  rw [cursorOf, Option.filter_filter]
  rfl

/-- A walk over pages that do not change ends within a budget exactly if the loop does. -/
theorem walkTree_ended_iff
    (hpages : ∀ cursor s, ((forge.listTreePage path cursor).runFrom s).1 = pages cursor)
    (hfailures : ∀ cursor, pages cursor ≠ .error .unfinished)
    (budget : Nat) (cursor : Option String) (seen : PathSet) (s : σ) :
    ((forge.walkTree path budget cursor seen).runFrom s).1 ≠ .error .unfinished ↔
      EndsWithin (GoesOn (namedBy cursorOf pages)) budget cursor := by
  induction budget generalizing cursor seen s with
  | zero => simp [Forge.walkTree, EndsWithin, Act.runFrom_throw]
  | succ budget ih =>
    have hpage := hpages cursor s
    rw [Forge.walkTree, Act.runFrom_bind, Act.runFrom_attempt]
    rcases hrun : (forge.listTreePage path cursor).runFrom s with ⟨failure | page, after⟩
    · rw [hrun] at hpage
      have hother : failure ≠ .unfinished := by
        rintro rfl
        exact hfailures cursor hpage.symm
      have hlast : namedBy cursorOf pages cursor = none := by simp [namedBy, ← hpage]
      refine iff_of_true ?_ (endsWithin_of_named_eq_none hlast budget)
      dsimp only
      split <;> simp [hother]
    · rw [hrun] at hpage
      rw [endsWithin_succ_iff (goesOn_namedBy_iff hpage.symm), ← nextCursor_eq_filter]
      dsimp only
      cases hnext : Forge.nextCursor cursor page with
      | none => simp
      | some next => simpa using ih (some next) (seen.insertMany page.paths) after

/-- A forge with a budget of pages of its own. -/
def allowing (forge : Forge σ) (budget : Nat) : Forge σ :=
  { forge with pageBudget := fun _ => budget }

theorem fetchTree_ended_iff
    (hpages : ∀ cursor s, ((forge.listTreePage path cursor).runFrom s).1 = pages cursor)
    (hfailures : ∀ cursor, pages cursor ≠ .error .unfinished) (budget : Nat) (s : σ) :
    (((allowing forge budget).fetchTree path).runFrom s).1 ≠ .error .unfinished ↔
      EndsWithin (GoesOn (namedBy cursorOf pages)) budget none := by
  have hsame : ∀ cursor s,
      (((allowing forge budget).listTreePage path cursor).runFrom s).1 = pages cursor := hpages
  rw [Forge.fetchTree, Act.runFrom_bind_of_ok (Act.runFrom_get s)]
  exact walkTree_ended_iff hsame hfailures budget none ∅ s

end Files

end ForgeSync.Paging
