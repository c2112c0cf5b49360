/-
# SvgAssets.Angular.Component -- components for dynamic assets

A component shows one asset and holds the values of its variables. It imports the asset and the type
of its variables from the index of the assets, and two functions that stand in this index behind the
assets.
-/
import SvgAssets.TypeScript.Asset

namespace SvgAssets.Angular

open TypeScript

/-- The function that makes the template of a component from an asset. The class of the image is the
scope of its styles. -/
def templateHelper (classPrefix : Text) : Statement :=
  let prefixText := String.ofList classPrefix
  .exportCode "getNgSvgTemplate".toList (lines
    ["",
      "export function getNgSvgTemplate(svg: any, context: string = 'context'): string \x7b",
      "  const css = svg.css ? svg.css.replace(/\x7b\x7b(.+?)\x7d\x7d/g, " ++
        "`\x7b\x7b$\x7bcontext\x7d.$1\x7d\x7d`) : '';",
      "  return `<svg [attr.class]=\"'" ++ prefixText ++ "-'+$\x7bcontext\x7d.uuid\" " ++
        "[attr.width]=\"width\" [attr.height]=\"height\" [attr.viewBox]=\"viewBox\">" ++
        "@@@styles@@@$\x7bsvg.svg\x7d</svg>`",
      "    .replace(/ (\\S+?)=['\"]\x7b\x7b(.+?)\x7d\x7d['\"]/g, " ++
        "` [attr.$1]=\"$\x7bcontext\x7d.$2\"`)",
      "    .replace(/\x7b\x7b(.+?)\x7d\x7d/g, `\x7b\x7b$\x7bcontext\x7d.$1\x7d\x7d`)",
      "    .replace('@@@styles@@@', css ? `<style>$\x7bcss\x7d</style>` : '');",
      "\x7d"])

/-- The function that writes a view box as an attribute. -/
def viewBoxHelper : Statement :=
  .exportCode "getSVGViewbox".toList (lines
    ["",
      "export function getSVGViewbox(viewBox: any): string \x7b",
      "  return viewBox ? [viewBox.minx, viewBox.miny, viewBox.width, viewBox.height].join(' ') " ++
        ": '';",
      "\x7d"])

/-- The index of the assets, with the functions that components need. -/
def assetIndex (records : List AssetRecord) (classPrefix : Text) : Source :=
  barrel records ++ [templateHelper classPrefix, viewBoxHelper]

/-- The name of the component of an asset. -/
def componentSymbol (r : AssetRecord) : Text := r.symbol ++ "Component".toList

/-- A side as the component starts with it. -/
def sideLiteral (side : Option Dimension) : String :=
  String.ofList (literal ((side.getD (.text "100%".toList)).toValue))

/-- The class of a component, behind its imports. -/
def componentCode (r : AssetRecord) (selector : Text) : List String :=
  let symbol := String.ofList r.symbol
  let box := if r.viewBox.isSome then symbol ++ ".viewBox" else "null"
  ["",
    "@Component(\x7b",
    "  selector: '" ++ String.ofList selector ++ "',",
    "  template: getNgSvgTemplate(" ++ symbol ++ "),",
    "  changeDetection: ChangeDetectionStrategy.OnPush",
    "\x7d)",
    "export class " ++ symbol ++ "Component implements OnInit \x7b",
    "  static UUID = 0;",
    "  private _context: " ++ symbol ++ "Context = \x7b ..." ++ symbol ++ ".contextDefaults \x7d;",
    "  @Input() width: number | string = " ++ sideLiteral r.width ++ ";",
    "  @Input() height: number | string = " ++ sideLiteral r.height ++ ";",
    "  @Input() viewBox: string = getSVGViewbox(" ++ box ++ ");",
    "  @Input()",
    "  set context(ctx: " ++ symbol ++ "Context) \x7b",
    "    this.updateContext(ctx);",
    "  \x7d",
    "  get context(): " ++ symbol ++ "Context \x7b",
    "    return this._context;",
    "  \x7d",
    "  constructor(private ref: ChangeDetectorRef) \x7b\x7d",
    "  ngOnInit() \x7b",
    "    this._context.uuid = " ++ symbol ++ "Component.UUID++;",
    "  \x7d",
    "  updateContext(ctx: " ++ symbol ++ "Context) \x7b",
    "    this._context = \x7b ..." ++ symbol ++ ".contextDefaults, ...this._context, ...ctx \x7d;",
    "    this.ref.markForCheck();",
    "  \x7d",
    "\x7d"]

/-- Where components import the assets from. -/
def assetsPath : Text := "../assets".toList

/-- The component of an asset. -/
def component (r : AssetRecord) (selector : Text) : Source :=
  [.importNames .block
      ["ChangeDetectionStrategy".toList, "ChangeDetectorRef".toList, "Component".toList,
        "Input".toList, "OnInit".toList] "@angular/core".toList,
    .importNames .block
      [r.symbol, r.contextSymbol, "getNgSvgTemplate".toList, "getSVGViewbox".toList] assetsPath,
    .exportCode (componentSymbol r) (lines (componentCode r selector))]

end SvgAssets.Angular
