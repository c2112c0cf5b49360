/-
# SvgAssets.Stylesheet.Scope -- the styles of a document under a scope of its own

Every selector of a style sheet is put under one scope, so that the styles of an asset apply to this
asset alone. The scope of a document is a class name that ends in a placeholder for the instance,
so that the scope differs between the places where the asset is shown.
-/
import SvgAssets.Markup.Block
import SvgAssets.Stylesheet.Marker
import SvgAssets.Stylesheet.Minify
import SvgAssets.Stylesheet.Parse

namespace SvgAssets.Stylesheet

open Text

/-- A minified style sheet with every selector under a scope. -/
def scope (s scopeText : Text) : Except StyleError Text :=
  return printItems (scopedItems scopeText (← parse s))

/-- The scope of a document, with the braces of its placeholder hidden. -/
def documentScope (scopeId instanceVariable : Text) : Text :=
  '.' :: scopeId ++ '-' :: openMarker ++ instanceVariable ++ closeMarker

/-- The minified and scoped styles of a document. -/
def ofDocument (document scopeId instanceVariable : Text) : Except StyleError Text :=
  let styles := Markup.inlineStyles document
  if (trim styles).isEmpty then .ok []
  else
    return restorePlaceholders
      (← scope (minify (hidePlaceholders styles)) (documentScope scopeId instanceVariable))

end SvgAssets.Stylesheet
