/-!
Type tags, and the sets of tags that a place in a query may expect.

Most values get their type only when the query runs, so the analysis knows a handful of tags and one
more, `Ty.unknown`, for everything it cannot tell.

* `Ty`: the tags.
* `Expectation`: a list of acceptable tags. The first one listed, `Expectation.primary`, is the one
  that is named when the expectation is not met.
* `Expectation.Admits`: the soft compatibility of an expectation with a tag. A tag that is not known
  fits every expectation (`admits_unknown`), and an expectation that lists `unknown` is met by every
  tag (`admits_of_unknown_mem`).
-/

namespace QueryAnalysis

/-- A type as far as it is known before the query runs. Dates and timestamps are numeric. The tag
`unit` marks the absence of a value and is the type of no expression. -/
inductive Ty where
  | unit
  | numeric
  | boolean
  | string
  | unknown
deriving DecidableEq

namespace Ty

/-- All tags, in their fixed order. -/
def all : List Ty := [unit, numeric, boolean, string, unknown]

/-- The tag as it is written in messages. -/
def name : Ty → String
  | unit => "unit"
  | numeric => "numeric"
  | boolean => "boolean"
  | string => "string"
  | unknown => "unknown"

/-- The list of all types is complete. -/
theorem mem_all (t : Ty) : t ∈ all := by
  cases t <;> decide

end Ty

/-- The types that are acceptable at some place, the preferred one first. -/
structure Expectation where
  types : List Ty
deriving DecidableEq

namespace Expectation

instance : Membership Ty Expectation where
  mem S t := t ∈ S.types

instance (t : Ty) (S : Expectation) : Decidable (t ∈ S) :=
  inferInstanceAs (Decidable (t ∈ S.types))

/-- The expectation of exactly one type. -/
def exactly (t : Ty) : Expectation := ⟨[t]⟩

/-- Truth values. -/
def boolean : Expectation := exactly .boolean

/-- Numbers. -/
def numeric : Expectation := exactly .numeric

/-- Texts. -/
def string : Expectation := exactly .string

/-- Operands of arithmetic: truth values count as zero and one there. -/
def arithmetic : Expectation := ⟨[.numeric, .boolean]⟩

/-- Any value of a known type. -/
def value : Expectation := ⟨[.numeric, .boolean, .string]⟩

/-- The type that is named when the expectation is not met. -/
def primary (S : Expectation) : Ty :=
  S.types.headD .unknown

/-- The members in the fixed order of the tags, each once. -/
def members (S : Expectation) : List Ty :=
  Ty.all.filter (· ∈ S)

/-- A type satisfies an expectation if it is a member, or if either side is unknown. -/
def Admits (S : Expectation) (t : Ty) : Prop :=
  t ∈ S ∨ t = .unknown ∨ Ty.unknown ∈ S

instance (S : Expectation) (t : Ty) : Decidable (S.Admits t) :=
  inferInstanceAs (Decidable (t ∈ S ∨ t = .unknown ∨ Ty.unknown ∈ S))

/-- An expectation has its types as members. -/
theorem mem_iff {t : Ty} {S : Expectation} : t ∈ S ↔ t ∈ S.types := Iff.rfl

@[simp] theorem mem_exactly {s t : Ty} : s ∈ exactly t ↔ s = t := by
  simp [mem_iff, exactly]

@[simp] theorem primary_exactly (t : Ty) : (exactly t).primary = t := rfl

/-- Putting the members in order neither adds nor loses one. -/
@[simp] theorem mem_members {t : Ty} {S : Expectation} : t ∈ S.members ↔ t ∈ S := by
  simp [members, Ty.mem_all]

/-- A type that is not known meets every expectation. -/
@[simp] theorem admits_unknown (S : Expectation) : S.Admits .unknown := Or.inr (Or.inl rfl)

/-- An expectation that lists `unknown` is met by every type. -/
theorem admits_of_unknown_mem {S : Expectation} (h : Ty.unknown ∈ S) (t : Ty) : S.Admits t :=
  Or.inr (Or.inr h)

/-- Exactly one type is met by that type alone, unless one of the two is unknown. -/
theorem admits_exactly {s t : Ty} :
    (exactly s).Admits t ↔ t = s ∨ t = .unknown ∨ s = .unknown := by
  simp [Admits, eq_comm]

end Expectation

end QueryAnalysis
