import MukhiDb.BTree.Insertion
import MukhiDb.Pager.Access

/-!
Contract: page programs on a pager.

Owns: the book that a sound pager shows; the fact that a sound pager runs every
page program as its book does; and the fact that every page program keeps a pager
coherent and its files untouched.

Does not own: trees, commit and rollback.
-/

namespace MukhiDb.Model

open MukhiDb.Foundation

namespace PagerIo

/-- The working pages of a pager, as a book. -/
def book (state : PagerIo) : List Page := (List.range state.count).map state.view

section Books

variable {base state after : PagerIo} {pages : List Page}

/-- A sound state that was reached from `base` and shows a book. -/
def Shows (base : PagerIo) (state : PagerIo) (pages : List Page) : Prop :=
  Reached base (binding.at_ pages) pages.length state

theorem book_length (state : PagerIo) : state.book.length = state.count := by
  rw [PagerIo.book, List.length_map, List.length_range]

theorem at_book (coherent : state.Coherent) : binding.at_ state.book = state.view := by
  funext index
  by_cases inside : index < state.count
  · apply binding.at_of_getElem?
    rw [PagerIo.book, List.getElem?_map, List.getElem?_range inside]
    rfl
  · have past : state.book.length ≤ index := by
      rw [book_length]
      exact Nat.le_of_not_lt inside
    rw [coherent.view_past (Nat.le_of_not_lt inside), Binding.at_, List.getD_eq_getElem?_getD,
      List.getElem?_eq_none past]
    rfl

theorem shows_book (sound : state.Sound) : Shows state state state.book := by
  unfold Shows
  rw [at_book sound.coherent, book_length]
  exact Reached.refl sound

/-- A sound state shows one book only. -/
theorem Shows.book (shows : Shows base state pages) : state.book = pages := by
  apply List.ext_getElem?
  intro index
  by_cases inside : index < pages.length
  · rw [binding.getElem?_of_lt inside, PagerIo.book, List.getElem?_map,
      List.getElem?_range (by rw [shows.count]; exact inside), ← shows.view]
    rfl
  · rw [List.getElem?_eq_none (by rw [book_length, shows.count]; omega),
      List.getElem?_eq_none (by omega)]

theorem Shows.trans {middle : PagerIo} {between : List Page} (left : Shows base middle between)
    (right : Shows middle state pages) : Shows base state pages :=
  Reached.trans left right

/-! ### Books under the calls of a store -/

theorem at_set {index : Nat} (inside : index < pages.length) (page : Page) :
    binding.at_ (pages.set index page) = Function.update (binding.at_ pages) index page := by
  funext other
  by_cases same : other = index
  · subst same
    rw [Function.update_self]
    exact binding.at_of_getElem? (List.getElem?_set_self inside)
  · rw [Function.update_of_ne same]
    unfold Binding.at_
    rw [List.getD_eq_getElem?_getD, List.getD_eq_getElem?_getD,
      List.getElem?_set_ne (Ne.symm same)]

theorem at_append_blank (pages : List Page) :
    binding.at_ (pages ++ [Page.zero]) = binding.at_ pages := by
  funext index
  unfold Binding.at_
  rw [List.getD_eq_getElem?_getD, List.getD_eq_getElem?_getD]
  by_cases inside : index < pages.length
  · rw [List.getElem?_append_left inside]
  · rw [List.getElem?_append_right (Nat.le_of_not_lt inside),
      List.getElem?_eq_none (Nat.le_of_not_lt inside)]
    cases index - pages.length with
    | zero => rfl
    | succ more => rfl

end Books

/-! ### Simulation -/

section Simulation

variable {base state : PagerIo} {book : List Page}

theorem load_simulates (index : Nat) :
    Program.Simulates (Shows base) (Pager.store.load index) (binding.store.load index) := by
  intro state book value bookAfter shows ran _
  change (if index < maxPages then _ else _) = _ at ran
  change ∃ after, Pager.getPage index state = _ ∧ _
  by_cases below : index < maxPages
  · rw [if_pos below] at ran
    obtain ⟨rfl, rfl⟩ := Prod.mk.inj ran
    obtain ⟨after, run, reached⟩ := getPage_sound shows.sound below
    rw [shows.view, shows.count] at reached
    refine ⟨after, ?_, Reached.trans shows reached⟩
    rw [run, shows.view]
  · rw [if_neg below] at ran
    obtain ⟨rfl, rfl⟩ := Prod.mk.inj ran
    exact ⟨state, loadPage_limit state (Nat.le_of_not_lt below), shows⟩

/-- A change that stops leaves the page as it was. -/
theorem modifyPage_stopped (sound : state.Sound) {index : Nat} (below : index < maxPages)
    (near : index < state.count) {change : Page → Except Fault Page} {fault : Fault}
    (stopped : change (state.view index) = .error fault) :
    ∃ after, Pager.modifyPage index change state = (.error fault, after) ∧
      Reached state state.view state.count after := by
  obtain ⟨after, run, modified, -⟩ :=
    getPageMut_ok sound.coherent sound.quiet below (sound.noGap index)
  refine ⟨after, ?_, modified.frame, modified.sound sound near.le below, ?_, ?_⟩
  · unfold Pager.modifyPage
    rw [Exec.bind_ok run, stopped]
    rfl
  · rw [modified.view, Function.update_eq_self]
  · rw [modified.count]
    omega

theorem change_simulates (index : Nat) (edit : Page → Except Fault Page) :
    Program.Simulates (Shows base) (Pager.store.change index edit)
      (binding.store.change index edit) := by
  intro state book value bookAfter shows ran noCrash
  change (if index < maxPages then _ else _) = _ at ran
  change ∃ after, Pager.modifyPage index edit state = _ ∧ _
  by_cases below : index < maxPages
  · rw [if_pos below] at ran
    by_cases inside : index < book.length
    · rw [if_pos inside] at ran
      have near : index < state.count := by
        rw [shows.count]
        exact inside
      rw [← shows.view] at ran
      cases edited : edit (state.view index) with
      | ok page =>
          rw [edited] at ran
          obtain ⟨rfl, rfl⟩ := Prod.mk.inj ran
          obtain ⟨after, run, reached⟩ := modifyPage_sound shows.sound below near edited
          rw [shows.view, shows.count, ← at_set inside] at reached
          refine ⟨after, run, Reached.trans shows ?_⟩
          rw [List.length_set]
          exact reached
      | error fault =>
          rw [edited] at ran
          obtain ⟨rfl, rfl⟩ := Prod.mk.inj ran
          obtain ⟨after, run, reached⟩ := modifyPage_stopped shows.sound below near edited
          rw [shows.view, shows.count] at reached
          exact ⟨after, run, Reached.trans shows reached⟩
    · rw [if_neg inside] at ran
      obtain ⟨rfl, rfl⟩ := Prod.mk.inj ran
      exact absurd rfl noCrash
  · rw [if_neg below] at ran
    obtain ⟨rfl, rfl⟩ := Prod.mk.inj ran
    refine ⟨state, ?_, shows⟩
    unfold Pager.modifyPage
    exact Exec.bind_error (getPageMut_error (loadPage_limit state (Nat.le_of_not_lt below)))

theorem allocate_simulates :
    Program.Simulates (Shows base) Pager.store.allocate binding.store.allocate := by
  intro state book value bookAfter shows ran _
  change (if book.length < maxPages then _ else _) = _ at ran
  change ∃ after, Pager.allocatePage state = _ ∧ _
  by_cases room : book.length < maxPages
  · rw [if_pos room] at ran
    obtain ⟨rfl, rfl⟩ := Prod.mk.inj ran
    obtain ⟨after, run, reached⟩ := allocatePage_sound shows.sound (by rw [shows.count]; exact room)
    rw [shows.view, shows.count] at reached
    refine ⟨after, by rw [run, shows.count], ?_⟩
    unfold Shows
    rw [show binding.blank = Page.zero from rfl, at_append_blank, List.length_append]
    exact Reached.trans shows reached
  · rw [if_neg room] at ran
    obtain ⟨rfl, rfl⟩ := Prod.mk.inj ran
    have full := allocatePage_full shows.sound (by rw [shows.count]; omega)
    rw [shows.count] at full
    exact ⟨state, full, shows⟩

/-- A sound pager runs a page program as the book that it shows does. -/
theorem perform_shows {α : Type} {program : PageProgram α} {value : Except Fault α}
    {bookAfter : List Page} (shows : Shows base state book)
    (ran : program.run binding.store book = (value, bookAfter)) (noCrash : value ≠ .error .crash) :
    ∃ after, Pager.perform program state = (value, after) ∧ Shows base after bookAfter :=
  Program.simulates load_simulates change_simulates allocate_simulates program state book value
    bookAfter shows ran noCrash

/-- Every page program keeps a pager coherent and its files untouched. -/
theorem perform_loose {α : Type} (program : PageProgram α) :
    Exec.Preserves Loose (Pager.perform program) :=
  Program.preserves Loose.refl (fun left right => left.trans right) loadPage_loose
    modifyPage_loose allocatePage_loose program

end Simulation

end PagerIo

end MukhiDb.Model
