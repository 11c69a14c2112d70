import Mathlib
import SysYTools.Span

/-!
The order of spans. Places follow each other by line, then by column, so a span has a first and a last
place, and two spans of one text either follow each other or overlap. Nothing here asks a span to end
after it starts; where that matters it is a premise.
-/

namespace SysYTools.Span

variable {left right inner middle outer : Span}

/-- The place of the first character. -/
def first (span : Span) : ℤ ×ₗ ℤ := toLex (span.startLine, span.startColumn)

/-- The place of the last character. -/
def last (span : Span) : ℤ ×ₗ ℤ := toLex (span.endLine, span.endColumn)

/-- A span has at least one character. -/
def Ordered (span : Span) : Prop := span.first ≤ span.last

/-- A span ends before another one starts. -/
def Before (left right : Span) : Prop := left.last < right.first

/-- A span lies within another one. -/
def Inside (inner outer : Span) : Prop := outer.first ≤ inner.first ∧ inner.last ≤ outer.last

instance (left right : Span) : Decidable (left.Before right) := inferInstanceAs (Decidable (left.last < right.first))

theorem before_iff :
    left.Before right ↔ left.endLine < right.startLine ∨
      left.endLine = right.startLine ∧ left.endColumn < right.startColumn :=
  Prod.Lex.toLex_lt_toLex

@[simp] theorem first_through (start stop : Span) : (start.through stop).first = start.first := rfl

@[simp] theorem last_through (start stop : Span) : (start.through stop).last = stop.last := rfl

theorem Inside.refl (span : Span) : span.Inside span := ⟨le_rfl, le_rfl⟩

theorem Inside.trans (low : inner.Inside middle) (high : middle.Inside outer) : inner.Inside outer :=
  ⟨high.1.trans low.1, low.2.trans high.2⟩

theorem Before.of_inside_left (before : outer.Before right) (inside : inner.Inside outer) : inner.Before right :=
  lt_of_le_of_lt inside.2 before

theorem Before.of_inside_right (before : left.Before outer) (inside : inner.Inside outer) : left.Before inner :=
  lt_of_lt_of_le before inside.1

theorem Before.trans (low : left.Before middle) (ordered : middle.Ordered)
    (high : middle.Before right) : left.Before right :=
  (lt_of_lt_of_le low ordered).trans high

theorem Ordered.not_before {span : Span} (ordered : span.Ordered) : ¬ span.Before span :=
  fun before => absurd ordered (not_le.mpr before)

theorem not_before_of_last_le (ordered : right.Ordered) (reaches : right.last ≤ left.last) : ¬ left.Before right :=
  not_lt.mpr (ordered.trans reaches)

end SysYTools.Span
