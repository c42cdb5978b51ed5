import TextParsing.Text

/-!
# Flags of a pattern

`Flags` are the settings in force at a place of a pattern.  A group or a directive changes some of
them; the letters before a hyphen switch flags on and those after it switch flags off.

    readFlags reads the letters up to the `:` or `)` that ends them    (readFlags_length_le)
-/

namespace TextParsing.Regex

/-- A setting that a pattern can switch. -/
inductive Flag where
  | ignoreCase
  | multiLine
  | dotAll
  | swapGreed
  | unicode
  | crlf
  | verbose
  deriving DecidableEq, Repr

/-- The flag of a letter. -/
def Flag.ofLetter? : Char → Option Flag
  | 'i' => some .ignoreCase
  | 'm' => some .multiLine
  | 's' => some .dotAll
  | 'U' => some .swapGreed
  | 'u' => some .unicode
  | 'R' => some .crlf
  | 'x' => some .verbose
  | _ => none

/-- The settings in force; only Unicode is on from the start. -/
structure Flags where
  ignoreCase : Bool := false
  multiLine : Bool := false
  dotAll : Bool := false
  swapGreed : Bool := false
  unicode : Bool := true
  crlf : Bool := false
  verbose : Bool := false
  deriving DecidableEq, Repr

/-- The settings with one flag switched. -/
def Flags.set (f : Flags) : Flag × Bool → Flags
  | (.ignoreCase, b) => { f with ignoreCase := b }
  | (.multiLine, b) => { f with multiLine := b }
  | (.dotAll, b) => { f with dotAll := b }
  | (.swapGreed, b) => { f with swapGreed := b }
  | (.unicode, b) => { f with unicode := b }
  | (.crlf, b) => { f with crlf := b }
  | (.verbose, b) => { f with verbose := b }

/-- Switches of flags, in the order in which they are written. -/
abbrev FlagChange := List (Flag × Bool)

/-- The settings after all switches. -/
def Flags.apply (f : Flags) (change : FlagChange) : Flags := change.foldl Flags.set f

/-- How the letters of a flag group end. -/
inductive FlagsEnd where
  | colon
  | paren
  deriving DecidableEq, Repr

/-- Reads flag letters.  `seen` are the switches read so far, `off` tells that the hyphen has been
read, and `dangling` that it was the last character.  No flag may occur twice. -/
def readFlags (seen : FlagChange) (off dangling : Bool) :
    Text → Option (FlagChange × FlagsEnd × Text)
  | [] => none
  | c :: s =>
    if c = ':' then if dangling then none else some (seen, .colon, s)
    else if c = ')' then if dangling then none else some (seen, .paren, s)
    else if c = '-' then if off then none else readFlags seen true true s
    else match Flag.ofLetter? c with
      | none => none
      | some flag =>
        if seen.any (·.1 = flag) then none else readFlags (seen ++ [(flag, !off)]) off false s

theorem readFlags_length_le {seen : FlagChange} {off dangling : Bool} {s rest : Text}
    {change : FlagChange} {close : FlagsEnd}
    (h : readFlags seen off dangling s = some (change, close, rest)) :
    rest.length ≤ s.length := by
  induction s generalizing seen off dangling with
  | nil => simp [readFlags] at h
  | cons c s ih =>
    have grow : ∀ {seen' off' dangling'},
        readFlags seen' off' dangling' s = some (change, close, rest) →
        rest.length ≤ (c :: s).length := fun h' => Nat.le_succ_of_le (ih h')
    unfold readFlags at h
    repeat' split at h
    all_goals first
      | exact grow h
      | cases h
    all_goals exact Nat.le_succ _

end TextParsing.Regex
