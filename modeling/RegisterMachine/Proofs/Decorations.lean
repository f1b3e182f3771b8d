import RegisterMachine.Proofs.FaultNotes

namespace RegisterMachine.Fault

/-- What a part through which a fault passes may set on it. -/
inductive Decoration where
  | raisedIn (origin : String)
  | noting (key value : String)
  | inTier (tier : Tier)
  deriving DecidableEq, Repr

def Decoration.origin? : Decoration → Option String
  | .raisedIn origin => some origin
  | _ => none

def Decoration.tier? : Decoration → Option Tier
  | .inTier tier => some tier
  | _ => none

def decorate (fault : Fault) : Decoration → Fault
  | .raisedIn origin => fault.raisedIn origin
  | .noting key value => fault.noting key value
  | .inTier tier => fault.inTier tier

/-- The fault behind all the parts that decorate it, in order. -/
def decorated (fault : Fault) (decorations : List Decoration) : Fault :=
  decorations.foldl decorate fault

/-- The notes that decorations leave on a fault with the given origin: those they make, and the
name of each origin that another takes the place of. -/
def trail (current : String) : List Decoration → List (String × String)
  | [] => []
  | .noting key value :: rest => (key, value) :: trail current rest
  | .inTier _ :: rest => trail current rest
  | .raisedIn origin :: rest =>
    if current = "" then trail origin rest else ("called", current) :: trail origin rest

/-- The origins that a fault has had, first its own. -/
def origins (fault : Fault) (decorations : List Decoration) : List String :=
  fault.origin :: decorations.filterMap Decoration.origin?

section
variable {fault : Fault} {decorations later : List Decoration}

theorem decorated_append :
    fault.decorated (decorations ++ later) = (fault.decorated decorations).decorated later :=
  List.foldl_append

/-- What a fault is about is no part's to change. -/
theorem decorate_keeps (fault : Fault) (decoration : Decoration) :
    (fault.decorate decoration).kind = fault.kind ∧
      (fault.decorate decoration).message = fault.message ∧
      (fault.decorate decoration).cause = fault.cause := by
  cases decoration with
  | raisedIn origin => exact ⟨kind_raisedIn _ _, message_raisedIn _ _, cause_raisedIn _ _⟩
  | noting key value => exact ⟨rfl, rfl, rfl⟩
  | inTier tier => exact ⟨rfl, rfl, rfl⟩

theorem decorated_keeps (fault : Fault) (decorations : List Decoration) :
    (fault.decorated decorations).kind = fault.kind ∧
      (fault.decorated decorations).message = fault.message ∧
      (fault.decorated decorations).cause = fault.cause := by
  induction decorations generalizing fault with
  | nil => exact ⟨rfl, rfl, rfl⟩
  | cons decoration rest ih =>
    obtain ⟨hkind, hmessage, hcause⟩ := decorate_keeps fault decoration
    obtain ⟨hkind', hmessage', hcause'⟩ := ih (fault.decorate decoration)
    exact ⟨hkind'.trans hkind, hmessage'.trans hmessage, hcause'.trans hcause⟩

/-- What only some decorations set is as the last of these left it. -/
theorem decorated_last {α : Type} {view : Fault → α} {set? : Decoration → Option α}
    (hstep : ∀ fault decoration,
      view (decorate fault decoration) = (set? decoration).getD (view fault))
    (fault : Fault) (decorations : List Decoration) :
    view (fault.decorated decorations) = (decorations.filterMap set?).getLastD (view fault) := by
  induction decorations generalizing fault with
  | nil => rfl
  | cons decoration rest ih =>
    have hrest := ih (fault.decorate decoration)
    rw [hstep] at hrest
    rw [List.filterMap_cons]
    cases hset : set? decoration with
    | none =>
      rw [hset] at hrest
      exact hrest
    | some value =>
      rw [hset] at hrest
      rw [List.getLastD_cons]
      exact hrest

theorem tier_decorated (fault : Fault) (decorations : List Decoration) :
    (fault.decorated decorations).tier =
      (decorations.filterMap Decoration.tier?).getLastD fault.tier := by
  refine decorated_last ?_ fault decorations
  intro fault decoration
  cases decoration with
  | raisedIn origin => exact tier_raisedIn fault origin
  | noting key value => rfl
  | inTier tier => rfl

theorem origin_decorated (fault : Fault) (decorations : List Decoration) :
    (fault.decorated decorations).origin =
      (decorations.filterMap Decoration.origin?).getLastD fault.origin := by
  refine decorated_last ?_ fault decorations
  intro fault decoration
  cases decoration with
  | raisedIn origin => exact origin_raisedIn fault origin
  | noting key value => rfl
  | inTier tier => rfl

theorem notes_decorated (fault : Fault) (decorations : List Decoration) :
    (fault.decorated decorations).notes = fault.notes ++ trail fault.origin decorations := by
  induction decorations generalizing fault with
  | nil => simp [decorated, trail]
  | cons decoration rest ih =>
    have hrest : (fault.decorated (decoration :: rest)).notes = _ :=
      ih (fault.decorate decoration)
    rw [hrest]
    cases decoration with
    | raisedIn origin =>
      by_cases horigin : fault.origin = ""
      · simp [decorate, notes_raisedIn, trail, horigin]
      · simp [decorate, notes_raisedIn, trail, horigin]
    | noting key value => simp [decorate, noting, trail]
    | inTier tier => simp [decorate, inTier, trail]

/-- Later notes do not hide earlier ones. -/
theorem note?_decorated (fault : Fault) (decorations : List Decoration) (key : String) :
    (fault.decorated decorations).note? key =
      (fault.note? key).or ((trail fault.origin decorations).lookup key) := by
  rw [note?, notes_decorated, List.lookup_append, note?]

theorem origins_ne_nil (fault : Fault) (decorations : List Decoration) :
    origins fault decorations ≠ [] :=
  List.cons_ne_nil _ _

theorem notesUnder_called_raisedIn (fault : Fault) (origin : String) :
    (fault.raisedIn origin).notesUnder "called" =
      fault.notesUnder "called" ++ [fault.origin].filter (· ≠ "") := by
  by_cases horigin : fault.origin = ""
  · simp [notesUnder, notes_raisedIn, horigin]
  · simp [notesUnder, notes_raisedIn, horigin]

/-- Of the origins that a fault has had, all but the last are noted when the next takes their
place. -/
theorem displaced_noted (fault : Fault) (decorations : List Decoration) :
    ∃ added, (fault.decorated decorations).notesUnder "called" =
        fault.notesUnder "called" ++ added ∧
      ((origins fault decorations).dropLast.filter (· ≠ "")).Sublist added := by
  induction decorations generalizing fault with
  | nil => exact ⟨[], (List.append_nil _).symm, List.nil_sublist _⟩
  | cons decoration rest ih =>
    obtain ⟨added, hadded, hsublist⟩ := ih (fault.decorate decoration)
    cases decoration with
    | raisedIn origin =>
      have horigins : origins fault (.raisedIn origin :: rest) =
          fault.origin :: origins (fault.raisedIn origin) rest := by
        simp [origins, Decoration.origin?]
      refine ⟨[fault.origin].filter (· ≠ "") ++ added, ?_, ?_⟩
      · rw [← List.append_assoc, ← notesUnder_called_raisedIn fault origin]
        exact hadded
      · rw [horigins, List.dropLast_cons_of_ne_nil (origins_ne_nil _ rest),
          ← List.singleton_append, List.filter_append]
        exact hsublist.append_left _
    | noting key value =>
      refine ⟨(if key = "called" then [value] else []) ++ added, ?_, ?_⟩
      · rw [← List.append_assoc, ← notesUnder_noting]
        exact hadded
      · exact hsublist.trans (List.sublist_append_right _ _)
    | inTier tier => exact ⟨added, hadded, hsublist⟩

theorem origins_eq_concat (fault : Fault) (decorations : List Decoration) :
    origins fault decorations =
      (origins fault decorations).dropLast ++ [(fault.decorated decorations).origin] := by
  have hlast : (origins fault decorations).getLast (origins_ne_nil fault decorations) =
      (fault.decorated decorations).origin := by
    rw [origin_decorated]
    exact List.getLast_eq_getLastD _
  rw [← hlast, List.dropLast_concat_getLast]

theorem atOperation_eq_self (h : (fault.note? "operation").isSome) (operation : Operation) :
    fault.atOperation operation = fault := by
  obtain ⟨value, hvalue⟩ := Option.isSome_iff_exists.mp h
  simp only [atOperation, hvalue]

theorem isSome_note?_atOperation (fault : Fault) (operation : Operation) :
    ((fault.atOperation operation).note? "operation").isSome := by
  unfold atOperation
  split
  · rename_i value hvalue
    rw [hvalue]
    rfl
  · simp [note?_noting]

/-- The first operation that is noted is the only one. -/
theorem foldl_atOperation_eq_self (h : (fault.note? "operation").isSome)
    (operations : List Operation) : operations.foldl atOperation fault = fault := by
  induction operations with
  | nil => rfl
  | cons operation rest ih => rw [List.foldl_cons, atOperation_eq_self h, ih]

end

/-- Decoration loses nothing of a fault. What it is about stays; its tier and its origin are the
last that were set; its notes are those it had and those that were made, in order, with the name
of each origin that another took the place of, so that every origin it ever had is its own still or
is noted as called; the first note under a key is the one that is found; and once an operation is
noted, no other is, however the fault is decorated in between. -/
theorem decoration_loses_nothing (fault : Fault) (decorations : List Decoration) :
    ((fault.decorated decorations).kind = fault.kind ∧
      (fault.decorated decorations).message = fault.message ∧
      (fault.decorated decorations).cause = fault.cause) ∧
    (fault.decorated decorations).tier =
      (decorations.filterMap Decoration.tier?).getLastD fault.tier ∧
    (fault.decorated decorations).origin =
      (decorations.filterMap Decoration.origin?).getLastD fault.origin ∧
    (fault.decorated decorations).notes = fault.notes ++ trail fault.origin decorations ∧
    (∃ displaced added, (origins fault decorations).filter (· ≠ "") =
        displaced ++ [(fault.decorated decorations).origin].filter (· ≠ "") ∧
      (fault.decorated decorations).notesUnder "called" = fault.notesUnder "called" ++ added ∧
      displaced.Sublist added) ∧
    (∀ key, (fault.decorated decorations).note? key =
      (fault.notes ++ trail fault.origin decorations).lookup key) ∧
    (∀ later key, (fault.decorated (decorations ++ later)).note? key =
      ((fault.decorated decorations).note? key).or
        ((trail (fault.decorated decorations).origin later).lookup key)) ∧
    ∀ operation later (operations : List Operation),
      operations.foldl atOperation
          (((fault.decorated decorations).atOperation operation).decorated later) =
        ((fault.decorated decorations).atOperation operation).decorated later := by
  refine ⟨decorated_keeps fault decorations, tier_decorated fault decorations,
    origin_decorated fault decorations, notes_decorated fault decorations, ?_, ?_, ?_, ?_⟩
  · obtain ⟨added, hadded, hsublist⟩ := displaced_noted fault decorations
    refine ⟨_, added, ?_, hadded, hsublist⟩
    rw [← List.filter_append]
    exact congrArg _ (origins_eq_concat fault decorations)
  · intro key
    rw [note?, notes_decorated]
  · intro later key
    rw [decorated_append, note?_decorated]
  · intro operation later operations
    apply foldl_atOperation_eq_self
    rw [note?_decorated]
    simp [isSome_note?_atOperation]

end RegisterMachine.Fault
