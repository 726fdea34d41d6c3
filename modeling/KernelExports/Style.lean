/-!
# Coloured text

Text for a terminal that understands escape sequences: a sequence that switches a style on, the
text, and the sequence that switches every style off. Where the text itself switches off every
style, the style is switched on again behind it, so the whole text has the style.
-/

namespace KernelExports

/-- The styles in use. -/
inductive Style where
  | bold
  | dimmed
  | green
  | yellow
  | blue
  | boldRed
  | boldYellow
  deriving DecidableEq, Repr

namespace Style

/-- The numbers that select a style. -/
def codes : Style → String
  | bold => "1"
  | dimmed => "2"
  | green => "32"
  | yellow => "33"
  | blue => "34"
  | boldRed => "1;31"
  | boldYellow => "1;33"

/-- The sequence that switches a style on. -/
def start (style : Style) : String :=
  "\x1b[" ++ style.codes ++ "m"

/-- The sequence that switches every style off. -/
def reset : String := "\x1b[0m"

/-- The characters with the style switched on again behind every sequence that switches every style
off. -/
def restart (style : Style) : List Char → List Char
  | [] => []
  | '\x1b' :: '[' :: '0' :: 'm' :: rest =>
    reset.toList ++ style.start.toList ++ style.restart rest
  | char :: rest => char :: style.restart rest

/-- The text in the given style, or as it is if colours are off. -/
def paint (style : Style) (colors : Bool) (text : String) : String :=
  if colors then style.start ++ String.ofList (style.restart text.toList) ++ reset else text

/-- Characters that switch nothing off stay as they are. -/
theorem restart_of_not_mem {style : Style} {chars : List Char} (plain : '\x1b' ∉ chars) :
    style.restart chars = chars := by
  induction chars with
  | nil => rfl
  | cons char rest ih =>
    have other : char ≠ '\x1b' := fun same => plain (same ▸ List.mem_cons_self)
    rw [restart, ih fun later => plain (List.mem_cons_of_mem _ later)]
    intro _ same
    exact absurd same other

/-- A text that switches nothing off stands between the two sequences as it is. -/
theorem paint_of_not_mem {style : Style} {text : String} (plain : '\x1b' ∉ text.toList)
    (colors : Bool) :
    style.paint colors text = if colors then style.start ++ text ++ reset else text := by
  rw [paint, restart_of_not_mem plain, String.ofList_toList]

/-- Whether the text should be coloured: the variable `CLICOLOR_FORCE` switches colours on and
`NO_COLOR` switches them off, whatever they are set to, except that the value `0` takes back
`CLICOLOR_FORCE`. Otherwise colours are for terminals, unless `CLICOLOR` is `0`. -/
def wanted (force no preferred : Option String) (isTerminal : Bool) : Bool :=
  if force.any (· ≠ "0") then true
  else if no.isSome then false
  else preferred.all (· ≠ "0") && isTerminal

end Style

end KernelExports
