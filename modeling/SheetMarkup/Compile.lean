import SheetMarkup.Node.Outline
import SheetMarkup.Placement
import SheetMarkup.Template.Reader

/-!
# Compiling templates

A template is compiled by reading its source and checking where its nodes stand. What comes out is
the template itself, or its outline.
-/

namespace SheetMarkup.Dialect

/-- The template of a source, if it can be read and its nodes stand where they may. -/
def compile (dialect : Dialect) (file source : String) : Except Report Template :=
  (dialect.readTemplate file source).bind Template.check

/-- The outline of a compiled template. -/
def compileOutline (dialect : Dialect) (file source : String) : Except Report String :=
  (dialect.compile file source).map Template.outline

end SheetMarkup.Dialect
