import FileCensus.Markup.Event

/-!
# Elements

The events of a document are those of a sequence of elements, the last of which may be left open.
Every sequence of events in which no closing tag comes before its opening tag is that of exactly one
such outline.
-/

namespace FileCensus.Markup

/-- No closing tag comes without an element that is open; `depth` elements are at the start. -/
def Balanced : Nat → List Event → Prop
  | _, [] => True
  | depth, .opening _ :: es => Balanced (depth + 1) es
  | depth, .selfClosing _ :: es => Balanced depth es
  | 0, .closing :: _ => False
  | depth + 1, .closing :: es => Balanced depth es

inductive Element where
  | empty (tag : Tag)
  | holding (tag : Tag) (children : List Element)

def Element.tag : Element → Tag
  | .empty tag => tag
  | .holding tag _ => tag

def Element.children : Element → List Element
  | .empty _ => []
  | .holding _ children => children

mutual

def Element.events : Element → List Event
  | .empty tag => [.selfClosing tag]
  | .holding tag children => .opening tag :: (eventsOf children ++ [.closing])

def eventsOf : List Element → List Event
  | [] => []
  | e :: es => e.events ++ eventsOf es

end

/-- Elements, and those that are still open after them from the outermost in, each with the elements
before the next one. -/
structure Outline where
  complete : List Element
  unclosed : List (Tag × List Element)

namespace Outline

def eventsOfUnclosed (unclosed : List (Tag × List Element)) : List Event :=
  unclosed.flatMap fun (tag, children) => .opening tag :: eventsOf children

def events (o : Outline) : List Event := eventsOf o.complete ++ eventsOfUnclosed o.unclosed

end Outline

/-- Events in the order they come: elements up to each of the closing tags that lack an opening one,
then the outline of what follows the last of these. -/
structure Layout where
  closed : List (List Element)
  outline : Outline

namespace Layout

def events (l : Layout) : List Event :=
  l.closed.flatMap (fun es => eventsOf es ++ [.closing]) ++ l.outline.events

/-- The layout with an element in front. -/
def prepend (e : Element) (l : Layout) : Layout :=
  match l.closed with
  | [] => ⟨[], ⟨e :: l.outline.complete, l.outline.unclosed⟩⟩
  | es :: closed => ⟨(e :: es) :: closed, l.outline⟩

/-- The layout with an opening tag in front: the first closing tag is its own. -/
def enclose (tag : Tag) (l : Layout) : Layout :=
  match l.closed with
  | [] => ⟨[], ⟨[], (tag, l.outline.complete) :: l.outline.unclosed⟩⟩
  | es :: closed => prepend (.holding tag es) ⟨closed, l.outline⟩

def of : List Event → Layout
  | [] => ⟨[], ⟨[], []⟩⟩
  | .selfClosing tag :: es => prepend (.empty tag) (of es)
  | .opening tag :: es => enclose tag (of es)
  | .closing :: es => ⟨[] :: (of es).closed, (of es).outline⟩

theorem events_prepend (e : Element) (l : Layout) : (prepend e l).events = e.events ++ l.events := by
  obtain ⟨closed, complete, unclosed⟩ := l
  cases closed with
  | nil => simp only [prepend, events, Outline.events, eventsOf, List.flatMap_nil, List.nil_append,
      List.append_assoc]
  | cons es closed => simp only [prepend, events, eventsOf, List.flatMap_cons, List.append_assoc]

theorem events_enclose (tag : Tag) (l : Layout) :
    (enclose tag l).events = .opening tag :: l.events := by
  obtain ⟨closed, complete, unclosed⟩ := l
  cases closed with
  | nil => rfl
  | cons es closed =>
    rw [enclose, events_prepend, Element.events]
    simp only [events, List.flatMap_cons, List.cons_append, List.append_assoc]

/-- A layout keeps the events. -/
theorem events_of (es : List Event) : (of es).events = es := by
  induction es with
  | nil => rfl
  | cons e es ih =>
    cases e with
    | opening tag => rw [of, events_enclose, ih]
    | selfClosing tag =>
      rw [of, events_prepend, ih]
      rfl
    | closing =>
      rw [of, events, List.flatMap_cons, eventsOf, List.nil_append, List.append_assoc,
        List.singleton_append]
      exact congrArg (Event.closing :: ·) ih

theorem length_closed_prepend (e : Element) (l : Layout) :
    (prepend e l).closed.length = l.closed.length := by
  obtain ⟨closed, outline⟩ := l
  cases closed <;> rfl

theorem length_closed_enclose (tag : Tag) (l : Layout) :
    (enclose tag l).closed.length = l.closed.length - 1 := by
  obtain ⟨closed, outline⟩ := l
  cases closed with
  | nil => rfl
  | cons es closed =>
    rw [enclose, length_closed_prepend]
    exact (Nat.add_sub_cancel ..).symm

/-- Events are balanced if the closing tags that lack an opening one are those of the elements open
at the start. -/
theorem balanced_iff (depth : Nat) (es : List Event) :
    Balanced depth es ↔ (of es).closed.length ≤ depth := by
  induction es generalizing depth with
  | nil => exact ⟨fun _ => Nat.zero_le _, fun _ => trivial⟩
  | cons e es ih =>
    cases e with
    | opening tag =>
      rw [Balanced, ih, of, length_closed_enclose]
      omega
    | selfClosing tag => rw [Balanced, ih, of, length_closed_prepend]
    | closing =>
      cases depth with
      | zero => exact ⟨False.elim, fun h => absurd h (Nat.not_succ_le_zero _)⟩
      | succ depth =>
        rw [Balanced, ih, of, List.length_cons]
        omega

theorem foldr_prepend_cons (children es : List Element) (closed : List (List Element)) (o : Outline) :
    children.foldr prepend ⟨es :: closed, o⟩ = ⟨(children ++ es) :: closed, o⟩ := by
  induction children with
  | nil => rfl
  | cons e children ih =>
    rw [List.foldr_cons, ih]
    rfl

theorem foldr_prepend_nil (children es : List Element) (unclosed : List (Tag × List Element)) :
    children.foldr prepend ⟨[], ⟨es, unclosed⟩⟩ = ⟨[], ⟨children ++ es, unclosed⟩⟩ := by
  induction children with
  | nil => rfl
  | cons e children ih =>
    rw [List.foldr_cons, ih]
    rfl

mutual

theorem of_element (e : Element) (rest : List Event) :
    of (e.events ++ rest) = prepend e (of rest) := by
  cases e with
  | empty tag => rfl
  | holding tag children =>
    rw [Element.events, List.cons_append, List.append_assoc, List.singleton_append, of,
      of_eventsOf children, of, foldr_prepend_cons, List.append_nil]
    rfl

theorem of_eventsOf (es : List Element) (rest : List Event) :
    of (eventsOf es ++ rest) = es.foldr prepend (of rest) := by
  cases es with
  | nil => rfl
  | cons e es => rw [eventsOf, List.append_assoc, of_element e, of_eventsOf es, List.foldr_cons]

end

theorem of_eventsOfUnclosed (unclosed : List (Tag × List Element)) :
    of (Outline.eventsOfUnclosed unclosed) = ⟨[], ⟨[], unclosed⟩⟩ := by
  induction unclosed with
  | nil => rfl
  | cons open_ unclosed ih =>
    obtain ⟨tag, children⟩ := open_
    rw [Outline.eventsOfUnclosed] at ih ⊢
    rw [List.flatMap_cons, List.cons_append, of, of_eventsOf, ih, foldr_prepend_nil,
      List.append_nil]
    rfl

/-- The layout of an outline's events is the outline alone. -/
theorem of_outline (o : Outline) : of o.events = ⟨[], o⟩ := by
  rw [Outline.events, of_eventsOf, of_eventsOfUnclosed, foldr_prepend_nil, List.append_nil]

end Layout

namespace Outline

/-- The outline of events; closing tags that lack an opening one are left out. -/
def of (es : List Event) : Outline := (Layout.of es).outline

theorem of_events (o : Outline) : of o.events = o := by
  rw [of, Layout.of_outline]

theorem events_of {es : List Event} (h : Balanced 0 es) : (of es).events = es := by
  have hclosed : (Layout.of es).closed = [] :=
    List.length_eq_zero_iff.1 (Nat.le_zero.1 ((Layout.balanced_iff 0 es).1 h))
  have hevents := Layout.events_of es
  rw [Layout.events, hclosed] at hevents
  exact hevents

/-- Balanced events are those of one outline alone. -/
theorem events_eq_iff {es : List Event} (h : Balanced 0 es) {o : Outline} :
    o.events = es ↔ o = of es := by
  constructor
  · rintro rfl
    exact (of_events o).symm
  · rintro rfl
    exact events_of h

end Outline

/-- Markup is read as balanced events: a closing tag has to name an open element. -/
theorem balanced_eventsWithin (failure : Option IoFault) (names : List Bytes) (s : Bytes) :
    Balanced names.length (eventsWithin failure names s).found := by
  fun_induction eventsWithin failure names s with
  | case1 => trivial
  | case2 => trivial
  | case3 => assumption
  | case4 => assumption
  | case5 => assumption
  | case6 => trivial
  | case7 => assumption
  | case8 => trivial

theorem balanced_found (source : Source) : Balanced 0 (events source).found :=
  balanced_eventsWithin source.failure [] _

end FileCensus.Markup
