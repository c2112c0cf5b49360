/-
# SvgAssets.Stylesheet.Tree -- style sheets as trees of rules

A style sheet is read as far as scoping needs it: which stretches of it are selectors of ordinary
rules, at whatever depth of conditional groups, and which are to be left alone. `print` writes a
tree in its minified form, and `scoped` puts every rule under a scope.
-/
import SvgAssets.Text.Casing
import SvgAssets.Text.WordChar

namespace SvgAssets.Stylesheet

open Text

/-- An item of a style sheet. -/
inductive Item where
  /-- A statement such as `@charset "utf-8";`, with its semicolon. -/
  | statement (text : Text)
  /-- A block that holds no rules to be scoped, such as `@font-face{…}`, as written. -/
  | untouched (text : Text)
  /-- A conditional group of rules, such as `@media print{…}`. -/
  | group (prelude : Text) (items : List Item)
  /-- An ordinary rule: its selectors and its declarations. -/
  | rule (selectors : List Text) (body : Text)

/-! ## Printing -/

mutual

/-- The text of an item. -/
def Item.print : Item → Text
  | .statement text => text
  | .untouched text => text
  | .group prelude items => prelude ++ '\x7b' :: printItems items ++ ['\x7d']
  | .rule selectors body => List.intercalate [','] selectors ++ '\x7b' :: body ++ ['\x7d']

/-- The text of a list of items. -/
def printItems : List Item → Text
  | [] => []
  | item :: rest => item.print ++ printItems rest

end

/-! ## Scoping -/

/-- What follows `:root` or `svg`, in any case, at the start of a selector, unless it continues the
name. -/
def behindRoot? (selector : Text) : Option Text :=
  let rest :=
    ((keyword? [':', 'r', 'o', 'o', 't'] selector).or (keyword? ['s', 'v', 'g'] selector)).map
      (·.2)
  rest.filter fun
    | [] => true
    | c :: _ => !(isWordChar c || c == '-')

/-- A selector under a scope. The scope class stands on the root element itself, so a selector of
the root becomes the scope; all others become descendants of it. -/
def scopedSelector (scope selector : Text) : Text :=
  match behindRoot? selector with
  | some rest => scope ++ rest
  | none => scope ++ ' ' :: selector

mutual

/-- An item with every selector under a scope. -/
def Item.scoped (scope : Text) : Item → Item
  | .statement text => .statement text
  | .untouched text => .untouched text
  | .group prelude items => .group prelude (scopedItems scope items)
  | .rule selectors body => .rule (selectors.map (scopedSelector scope)) body

/-- A list of items with every selector under a scope. -/
def scopedItems (scope : Text) : List Item → List Item
  | [] => []
  | item :: rest => item.scoped scope :: scopedItems scope rest

end

end SvgAssets.Stylesheet
