/-!
# Emphasis

How reports emphasise parts of their text.  What it looks like is up to whoever shows the report:
a terminal switches to other letters and back, a file has the text as it is.
-/

namespace DynLisp

/-- How text is emphasised. -/
structure Style where
  /-- A snippet or a place that stands out. -/
  bold : String → String
  /-- Text that names an error or marks where it lies. -/
  alarm : String → String

namespace Style

/-- No emphasis at all. -/
def plain : Style := ⟨fun s => s, fun s => s⟩

instance : Inhabited Style := ⟨plain⟩

end Style

end DynLisp
