/-! Styled text on a terminal. A piece of text stands between the codes of its style
and a reset; where the text holds a reset of its own, the style is taken up again
behind it. Without colors a text stands as it is. -/

namespace EndpointCatalog.Terminal

/-- The codes of a style; no codes at all mean plain text. -/
structure Style where
  codes : String
  deriving DecidableEq, Repr

namespace Style

def plain : Style := ⟨""⟩

def red : Style := ⟨"31"⟩

def green : Style := ⟨"32"⟩

def yellow : Style := ⟨"33"⟩

def blue : Style := ⟨"34"⟩

def brightBlack : Style := ⟨"90"⟩

def brightBlue : Style := ⟨"94"⟩

def brightCyan : Style := ⟨"96"⟩

def brightWhite : Style := ⟨"97"⟩

def bold (s : Style) : Style := ⟨"1;" ++ s.codes⟩

def opening (s : Style) : String := "\x1b[" ++ s.codes ++ "m"

end Style

def reset : String := "\x1b[0m"

/-- A text in a style, if colors are on. -/
def paint (color : Bool) (style : Style) (s : String) : String :=
  if !color || style.codes.isEmpty then s
  else style.opening ++ s.replace reset (reset ++ style.opening) ++ reset

end EndpointCatalog.Terminal
