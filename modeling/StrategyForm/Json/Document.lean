import StrategyForm.Json.Value

/-!
# Documents

A document is a text read as far as it is JSON, in the order of the text and without a decision on
what is wanted of it. Where the text stops being JSON the document says so in place, so that a
decoder that walks it meets every mistake in the order of the text: a wrong shape before a later
flaw is reported as the wrong shape.

Some spellings matter only to who keeps a value. A quoted text with half of a surrogate pair, or a
number beyond the largest float, may be skipped but not kept; `Doc.flaw?` is what a reader meets
who skips a value, `Doc.mismatch` what one meets who wanted another kind of value.
-/

namespace StrategyForm.Json

/-- How a text fails to be JSON: it stops too early, or it goes on wrongly. -/
inductive Flaw where
  | truncated
  | malformed
deriving DecidableEq, Repr

/-- What a decoder reports: a flaw of the text, or a value of the wrong shape. -/
inductive Mistake where
  | flawed (flaw : Flaw)
  | misshapen
deriving DecidableEq, Repr

namespace Mistake
def truncated : Mistake := .flawed .truncated
def malformed : Mistake := .flawed .malformed
end Mistake

/-- How the members of an object end: with its bracket; after a member or at the start, where
neither a comma nor the bracket stands; or at the place of a key, where something else stands. In
the last case a value may stand there, and `standing` is what one meets who reads it as a word. -/
inductive Ending where
  | closed
  | unclosed (flaw : Flaw)
  | keyless (kept skipped : Flaw) (standing : Mistake)
deriving DecidableEq, Repr

/-- A text as far as it is JSON. A quoted text without a value has half of a surrogate pair in it.
An array has a flaw when neither a comma nor its bracket follows its last item.

The last three are where the text stops being JSON. A `flaw` may differ for who keeps the value and
who skips it. In a word or a number that is begun but not ended well, what one meets also depends
on whether one would take such a value at all; of a word it is told whether it begins as `null`. -/
inductive Doc where
  | null
  | bool (value : Bool)
  | number (spelling : Literal)
  | string (text : Option String)
  | array (items : List Doc) (ending : Option Flaw)
  | object (members : List (Option String × Doc)) (ending : Ending)
  | flaw (kept skipped : Flaw)
  | brokenWord (asNull : Bool) (flaw : Flaw)
  | brokenNumber (flaw : Flaw)
deriving Repr, Inhabited

namespace Doc

/-- What one meets who wanted another kind of value. Brackets are not looked into. -/
def mismatch : Doc → Mistake
  | .null | .bool _ | .array .. | .object .. => .misshapen
  | .number l => if l.toNumber?.isSome then .misshapen else .malformed
  | .string (some _) => .misshapen
  | .string none => .malformed
  | .flaw kept _ | .brokenWord _ kept | .brokenNumber kept => .flawed kept

mutual
/-- The first flaw that one meets who skips the value. -/
def flaw? : Doc → Option Flaw
  | .null | .bool _ | .number _ | .string _ => none
  | .flaw _ skipped | .brokenWord _ skipped => some skipped
  | .brokenNumber _ => some .malformed
  | .array items ending => (flawInItems? items).or ending
  | .object members ending =>
    (flawInMembers? members).or (match ending with
      | .closed => none
      | .unclosed f => some f
      | .keyless _ skipped _ => some skipped)

def flawInItems? : List Doc → Option Flaw
  | [] => none
  | d :: rest => (flaw? d).or (flawInItems? rest)

def flawInMembers? : List (Option String × Doc) → Option Flaw
  | [] => none
  | (_, d) :: rest => (flaw? d).or (flawInMembers? rest)
end

end Doc

end StrategyForm.Json
