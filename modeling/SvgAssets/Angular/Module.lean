/-
# SvgAssets.Angular.Module -- the module of all components

The index of the components exports every component again, and the module declares and exports them
all.
-/
import SvgAssets.Angular.Component

namespace SvgAssets.Angular

open TypeScript

/-- The index of the components. -/
def componentIndex (components : List AssetRecord) : Source :=
  components.map fun r =>
    .exportNames [componentSymbol r] ("./".toList ++ r.name ++ ".component".toList)

/-- The name of the module. -/
def moduleSymbol (moduleName : Text) : Text :=
  Naming.symbolName moduleName ++ "Module".toList

/-- The class of the module, behind its imports. -/
def moduleCode (symbols : List Text) (moduleName : Text) : List String :=
  ["",
    "const components = [" ++ String.ofList ([',', ' '].intercalate symbols) ++ "];",
    "",
    "@NgModule(\x7b",
    "  declarations: [...components],",
    "  exports: [...components],",
    "  imports: [CommonModule]",
    "\x7d)",
    "export class " ++ String.ofList (moduleSymbol moduleName) ++ " \x7b\x7d"]

/-- The module of the given components. -/
def ngModule (components : List AssetRecord) (moduleName : Text) : Source :=
  let symbols := components.map componentSymbol
  [.importNames .line ["NgModule".toList] "@angular/core".toList,
    .importNames .line ["CommonModule".toList] "@angular/common".toList] ++
    (if symbols.isEmpty then [] else [.importNames .block symbols "./components".toList]) ++
    [.exportCode (moduleSymbol moduleName) (lines (moduleCode symbols moduleName))]

end SvgAssets.Angular
