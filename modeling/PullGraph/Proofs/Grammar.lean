import PullGraph.Json.Reader

/-! # The grammar of JSON texts

A JSON text is written from a tree: null, a truth value, a numeral, a text, an array or an
object. `Tree.Written` says which lists of characters are written from a tree, rule by rule
and without regard to how they are read. Between any two tokens blanks may stand.

Two spellings of texts differ in the escapes for surrogates. In the paired one they come in
pairs, which denote one character; in the other each stands alone and denotes none, so a
replacement is put in its place.
-/
namespace PullGraph.Json

/-! ## Tokens -/

/-- Nothing but blanks. -/
def Blank (cs : List Char) : Prop := ∀ c ∈ cs, isBlank c = true

/-- The escapes by one letter, each with the character that it denotes. -/
def shortEscapes : List (Char × Char) :=
  [('"', '"'), ('\\', '\\'), ('/', '/'), ('b', '\x08'), ('f', '\x0c'), ('n', '\n'), ('r', '\r'),
    ('t', '\t')]

/-- Four hexadecimal digits and the unit that they denote. -/
inductive UnitText : List Char → Nat → Prop where
  | digits {a b c d : Char} {x y z w : Nat} (ha : hexValue? a = some x) (hb : hexValue? b = some y)
      (hc : hexValue? c = some z) (hd : hexValue? d = some w) :
      UnitText [a, b, c, d] (((x * 16 + y) * 16 + z) * 16 + w)

/-- The character that a surrogate pair denotes. -/
def pairedChar (leading trailing : Nat) : Char :=
  Char.ofNat ((leading - 0xD800) * 0x400 + (trailing - 0xDC00) + 0x10000)

/-- A character of a text, behind a backslash. -/
inductive EscapeText (paired : Bool) : List Char → Char → Prop where
  | short {e c : Char} (h : (e, c) ∈ shortEscapes) : EscapeText paired [e] c
  | unit {ds : List Char} {n : Nat} (h : UnitText ds n) (hl : isLeading n = false)
      (ht : isTrailing n = false) : EscapeText paired ('u' :: ds) (Char.ofNat n)
  | pair {ds ds' : List Char} {n n' : Nat} (hp : paired = true) (h : UnitText ds n)
      (hl : isLeading n = true) (h' : UnitText ds' n') (ht : isTrailing n' = true) :
      EscapeText paired ('u' :: ds ++ '\\' :: 'u' :: ds') (pairedChar n n')
  | lone {ds : List Char} {n : Nat} (hp : paired = false) (h : UnitText ds n)
      (hs : (isLeading n || isTrailing n) = true) : EscapeText paired ('u' :: ds) '\uFFFD'

/-- The characters of a text, as they stand between its quotes. -/
inductive BodyText (paired : Bool) : List Char → List Char → Prop where
  | nil : BodyText paired [] []
  | plain {c : Char} {cs s : List Char} (hctrl : 0x20 ≤ c.toNat) (hquote : c ≠ '"')
      (hslash : c ≠ '\\') (h : BodyText paired cs s) : BodyText paired (c :: cs) (c :: s)
  | escape {c : Char} {es cs s : List Char} (he : EscapeText paired es c)
      (h : BodyText paired cs s) : BodyText paired ('\\' :: es ++ cs) (c :: s)

/-- A text between quotes. -/
inductive QuotedText (paired : Bool) : List Char → String → Prop where
  | quotes {cs : List Char} {s : String} (h : BodyText paired cs s.toList) :
      QuotedText paired ('"' :: cs ++ ['"']) s

/-- One or more digits. -/
structure Digits (ds : List Char) : Prop where
  ne_nil : ds ≠ []
  isDigit : ∀ c ∈ ds, isDigit c = true

/-- The digits before the point: a zero stands first only if it stands alone. -/
structure WholeText (ds : List Char) : Prop where
  digits : Digits ds
  zero : ds.head? = some '0' → ds = ['0']

/-- The fraction of a numeral, by its digits. -/
inductive FractionText : List Char → List Char → Prop where
  | none : FractionText [] []
  | point {ds : List Char} (h : Digits ds) : FractionText ('.' :: ds) ds

/-- The signs that an exponent can have, and whether they put it below zero. -/
def exponentSigns : List (List Char × Bool) := [([], false), (['+'], false), (['-'], true)]

/-- The exponent of a numeral, by its sign and digits. -/
inductive ExponentText : List Char → Option (Bool × List Char) → Prop where
  | none : ExponentText [] none
  | power {e : Char} {sign ds : List Char} {below : Bool} (he : e = 'e' ∨ e = 'E')
      (hs : (sign, below) ∈ exponentSigns) (h : Digits ds) :
      ExponentText (e :: (sign ++ ds)) (some (below, ds))

/-- A numeral without its sign. -/
inductive Numeral.Unsigned (l : Numeral) : List Char → Prop where
  | parts {fs es : List Char} (hw : WholeText l.whole) (hf : FractionText fs l.fraction)
      (he : ExponentText es l.exponent) : Unsigned l (l.whole ++ (fs ++ es))

/-- A numeral. -/
inductive Numeral.Written (l : Numeral) : List Char → Prop where
  | positive {cs : List Char} (hn : l.negative = false) (h : l.Unsigned cs) : Written l cs
  | negative {cs : List Char} (hn : l.negative = true) (h : l.Unsigned cs) : Written l ('-' :: cs)

/-! ## Trees -/

mutual

/-- What a JSON text is written from. -/
inductive Tree where
  | null
  | bool (b : Bool)
  | numeral (l : Numeral)
  | text (s : String)
  | array (items : Elements)
  | object (members : Members)

/-- The elements of an array. -/
inductive Elements where
  | nil
  | cons (item : Tree) (rest : Elements)

/-- The members of an object as they are written; keys may repeat. -/
inductive Members where
  | nil
  | cons (key : String) (value : Tree) (rest : Members)

end

mutual

/-- How many containers lie inside each other in a tree. -/
def Tree.depth : Tree → Nat
  | .array items => items.depth
  | .object members => members.depth
  | _ => 0

/-- How many containers lie inside each other, the array itself included. -/
def Elements.depth : Elements → Nat
  | .nil => 1
  | .cons item rest => max (item.depth + 1) rest.depth

/-- How many containers lie inside each other, the object itself included. -/
def Members.depth : Members → Nat
  | .nil => 1
  | .cons _ value rest => max (value.depth + 1) rest.depth

end

mutual

/-- Some value in a tree, the tree itself included, is of a kind. -/
def Tree.Contains (kind : Tree → Prop) : Tree → Prop
  | .array items => kind (.array items) ∨ items.Contain kind
  | .object members => kind (.object members) ∨ members.Contain kind
  | t => kind t

/-- Some value in the elements of an array is of a kind. -/
def Elements.Contain (kind : Tree → Prop) : Elements → Prop
  | .nil => False
  | .cons item rest => item.Contains kind ∨ rest.Contain kind

/-- Some value in the members of an object is of a kind. -/
def Members.Contain (kind : Tree → Prop) : Members → Prop
  | .nil => False
  | .cons _ value rest => value.Contains kind ∨ rest.Contain kind

end

mutual

/-- The texts that are written from a tree. -/
inductive Tree.Written (paired : Bool) : Tree → List Char → Prop where
  | null : Tree.Written paired .null ['n', 'u', 'l', 'l']
  | yes : Tree.Written paired (.bool true) ['t', 'r', 'u', 'e']
  | no : Tree.Written paired (.bool false) ['f', 'a', 'l', 's', 'e']
  | numeral {l : Numeral} {cs : List Char} (h : l.Written cs) : Tree.Written paired (.numeral l) cs
  | text {s : String} {cs : List Char} (h : QuotedText paired cs s) :
      Tree.Written paired (.text s) cs
  | noElements {gap : List Char} (hg : Blank gap) :
      Tree.Written paired (.array .nil) ('[' :: (gap ++ [']']))
  | array {items : Elements} {cs : List Char} (h : Elements.Written paired items cs) :
      Tree.Written paired (.array items) ('[' :: (cs ++ [']']))
  | noMembers {gap : List Char} (hg : Blank gap) :
      Tree.Written paired (.object .nil) ('\x7b' :: (gap ++ ['\x7d']))
  | object {members : Members} {cs : List Char} (h : Members.Written paired members cs) :
      Tree.Written paired (.object members) ('\x7b' :: (cs ++ ['\x7d']))

/-- One or more elements, with commas between them. -/
inductive Elements.Written (paired : Bool) : Elements → List Char → Prop where
  | last {item : Tree} {cs : List Char} (h : Tree.Padded paired item cs) :
      Elements.Written paired (.cons item .nil) cs
  | more {item : Tree} {rest : Elements} {cs cs' : List Char} (h : Tree.Padded paired item cs)
      (hr : Elements.Written paired rest cs') :
      Elements.Written paired (.cons item rest) (cs ++ ',' :: cs')

/-- One or more members, with commas between them. -/
inductive Members.Written (paired : Bool) : Members → List Char → Prop where
  | last {key : String} {value : Tree} {cs : List Char} (h : Tree.Named paired key value cs) :
      Members.Written paired (.cons key value .nil) cs
  | more {key : String} {value : Tree} {rest : Members} {cs cs' : List Char}
      (h : Tree.Named paired key value cs) (hr : Members.Written paired rest cs') :
      Members.Written paired (.cons key value rest) (cs ++ ',' :: cs')

/-- A value with blanks around it. -/
inductive Tree.Padded (paired : Bool) : Tree → List Char → Prop where
  | blanks {t : Tree} {lead cs trail : List Char} (hl : Blank lead) (h : Tree.Written paired t cs)
      (ht : Blank trail) : Tree.Padded paired t (lead ++ (cs ++ trail))

/-- A value behind its key and a colon. -/
inductive Tree.Named (paired : Bool) : String → Tree → List Char → Prop where
  | colon {key : String} {t : Tree} {lead ks gap cs : List Char} (hl : Blank lead)
      (hk : QuotedText paired ks key) (hg : Blank gap) (h : Tree.Padded paired t cs) :
      Tree.Named paired key t (lead ++ (ks ++ (gap ++ ':' :: cs)))

end

/-- One or more members, with commas between them, of which keys and values may be spelled
differently. -/
inductive Members.Spelled (keys values : Bool) : Members → List Char → Prop where
  | last {key : String} {value : Tree} {lead ks gap cs : List Char} (hl : Blank lead)
      (hk : QuotedText keys ks key) (hg : Blank gap) (h : Tree.Padded values value cs) :
      Spelled keys values (.cons key value .nil) (lead ++ (ks ++ (gap ++ ':' :: cs)))
  | more {key : String} {value : Tree} {rest : Members} {lead ks gap cs cs' : List Char}
      (hl : Blank lead) (hk : QuotedText keys ks key) (hg : Blank gap)
      (h : Tree.Padded values value cs) (hr : Spelled keys values rest cs') :
      Spelled keys values (.cons key value rest) (lead ++ (ks ++ (gap ++ ':' :: cs)) ++ ',' :: cs')

/-- An object with blanks around it, of which keys and values may be spelled differently. -/
inductive Members.ObjectText (keys values : Bool) : Members → List Char → Prop where
  | empty {lead gap trail : List Char} (hl : Blank lead) (hg : Blank gap) (ht : Blank trail) :
      ObjectText keys values .nil (lead ++ '\x7b' :: (gap ++ '\x7d' :: trail))
  | members {members : Members} {lead cs trail : List Char} (hl : Blank lead)
      (h : members.Spelled keys values cs) (ht : Blank trail) :
      ObjectText keys values members (lead ++ '\x7b' :: (cs ++ '\x7d' :: trail))

/-- The values under a key, in order. -/
def Members.valuesOf (key : String) : Members → List Tree
  | .nil => []
  | .cons k value rest => if k = key then value :: rest.valuesOf key else rest.valuesOf key

end PullGraph.Json
