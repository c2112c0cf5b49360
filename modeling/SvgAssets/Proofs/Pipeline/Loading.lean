/-
# SvgAssets.Proofs.Pipeline.Loading -- what loading keeps of a document

A source is the text of its file without line breaks. Where line breaks alone stand between two
tokens, the tokens are joined, and the source is another document than its file (`loaded_apart`).
Elsewhere the two have the same signature, the same root tag and the same geometry
(`document_of_load`).
-/
import SvgAssets.Pipeline.Source
import SvgAssets.Proofs.Markup.LineBreaks

namespace SvgAssets

namespace Geometry

open Text Markup

/-! ## Tokens of a tag -/

/-- Characters of the names and numbers in a tag. -/
def isTokenChar (c : Char) : Bool :=
  !(isSeparator c || isQuote c || c == '=' || c == '<' || c == '>')

/-- The tokens of a tag: its name, the names of its attributes, and the numbers or words in their
values. -/
def tagTokens (tag : Text) : List Text := words isTokenChar tag

/-- No line break alone stands between two characters of tokens. -/
def keepsTokens (tag : Text) : Bool := keepsWords isTokenChar false tag

theorem not_isLineBreak_of_isTokenChar {c : Char} (h : isTokenChar c = true) :
    isLineBreak c = false := by
  rw [← Bool.not_eq_true]
  intro hbreak
  simp [isTokenChar, isSeparator, isBlank_of_isLineBreak hbreak] at h

theorem isTokenChar_of_isNameChar {c : Char} (h : isNameChar c = true) : isTokenChar c = true := by
  have hmark := isMark_eq_false_of_isNameChar h
  have hne : ∀ d, isNameChar d = false → c ≠ d := by
    rintro d hd rfl
    rw [hd] at h
    cases h
  simp only [isMark, Bool.or_eq_false_iff, beq_eq_false_iff_ne] at hmark
  simp [isTokenChar, isSeparator, hmark, hne ',' (by decide), hne '<' (by decide),
    hne '>' (by decide)]

/-- **Tokens and line breaks.** Without its line breaks a tag has the same tokens if and only if no
line break alone stands between two characters of tokens. -/
theorem tagTokens_dropLineBreaks_iff (tag : Text) :
    tagTokens (dropLineBreaks tag) = tagTokens tag ↔ keepsTokens tag = true :=
  words_dropLineBreaks_iff fun _ => not_isLineBreak_of_isTokenChar

/-! ## The geometry of a root tag -/

/-- The attributes that the geometry is taken from. -/
def geometryNames : List Text :=
  [['w', 'i', 'd', 't', 'h'], ['h', 'e', 'i', 'g', 'h', 't'], ['v', 'i', 'e', 'w', 'B', 'o', 'x']]

/-- The values of the geometry attributes stand on one line each. -/
def hasLevelValues (tag : Text) : Bool := geometryNames.all (valuesOnOneLine · none tag)

theorem rootAttributes_dropLineBreaks {tag : Text} (htokens : keepsTokens tag = true)
    (hvalues : hasLevelValues tag = true) :
    rootAttributes (dropLineBreaks tag) = rootAttributes tag := by
  have hnames : geometryNames.all (fun name => name != [] && name.all isNameChar) = true := by
    decide
  have hvalue : ∀ name ∈ geometryNames,
      Attribute.value? name (dropLineBreaks tag) = Attribute.value? name tag := by
    intro name hmem
    have hname := List.all_eq_true.1 hnames name hmem
    rw [Bool.and_eq_true, bne_iff_ne, List.all_eq_true] at hname
    exact Attribute.value?_dropLineBreaks (fun _ => not_isLineBreak_of_isTokenChar)
      (fun _ => isTokenChar_of_isNameChar) hname.1 hname.2 htokens
      (List.all_eq_true.1 hvalues name hmem)
  simp only [geometryNames, List.forall_mem_cons] at hvalue
  obtain ⟨hwidth, hheight, hviewBox, -⟩ := hvalue
  rw [rootAttributes, rootAttributes, hwidth, hheight, hviewBox]

theorem infer_dropLineBreaks {s : Text} (hname : rootNameStands s = true)
    (htag : ∀ tag ∈ rootTag? s, keepsTokens tag = true ∧ hasLevelValues tag = true)
    (percentFallback : Bool) :
    infer (dropLineBreaks s) percentFallback = infer s percentFallback := by
  rw [infer, infer, rootTag?_dropLineBreaks hname]
  cases h : rootTag? s with
  | none => rfl
  | some tag =>
    obtain ⟨htokens, hvalues⟩ := htag tag h
    simp only [Option.map_some, rootAttributes_dropLineBreaks htokens hvalues]

end Geometry

namespace Pipeline

open Text Markup
open SvgAssets.Geometry

/-- A file that holds a text is loaded. -/
theorem load_eq {tree : FileTree} {path text hash : Text} {bytes : Bytes}
    {supply supply' : HashSupply} (hread : tree.read path = .ok bytes)
    (htext : Utf8.decode bytes = .ok text) (hhash : supply.next = .ok (hash, supply')) :
    Source.load tree path supply =
      .ok (Source.ofText path (unifyLineBreaks text) hash, supply') := by
  simp only [Source.load, FileTree.readText, hread, htext, hhash]

theorem svg_ofText_unifyLineBreaks (path text hash : Text) :
    (Source.ofText path (unifyLineBreaks text) hash).svg = dropLineBreaks text :=
  dropLineBreaks_unifyLineBreaks text

/-- **The document that is loaded.** A file that holds a text is loaded. The tokens of its root tag
are kept if and only if no line break alone stands between two of them. If the name of no tag of the
root element is broken or left to a line break alone, the source has the signature and the root tag
of the text. If besides the tokens of the root tag are kept and its values stand on one line, the
source has the geometry of the text. -/
theorem document_of_load {tree : FileTree} {path text hash : Text} {bytes : Bytes}
    {supply supply' : HashSupply} (hread : tree.read path = .ok bytes)
    (htext : Utf8.decode bytes = .ok text) (hhash : supply.next = .ok (hash, supply')) :
    ∃ source, Source.load tree path supply = .ok (source, supply') ∧
      (∀ tag ∈ rootTag? text,
        tagTokens (dropLineBreaks tag) = tagTokens tag ↔ keepsTokens tag = true) ∧
      (rootNameStands text = true →
        hasSignature source.svg = hasSignature text ∧
        rootTag? source.svg = (rootTag? text).map dropLineBreaks ∧
        ((∀ tag ∈ rootTag? text, keepsTokens tag = true ∧ hasLevelValues tag = true) →
          ∀ percentFallback, infer source.svg percentFallback = infer text percentFallback)) := by
  refine ⟨_, load_eq hread htext hhash, fun tag _ => tagTokens_dropLineBreaks_iff tag,
    fun hname => ?_⟩
  rw [svg_ofText_unifyLineBreaks]
  exact ⟨hasSignature_dropLineBreaks hname, rootTag?_dropLineBreaks hname,
    infer_dropLineBreaks hname⟩

/-- A directory with one image of the given text. -/
def oneImage (text : Text) : FileTree :=
  ⟨.directory [("svg".toList, .directory [("a.svg".toList, .file (Utf8.encode text))])], []⟩

/-- A document with line breaks of all three kinds, one of them in front of the end of its tag. -/
def brokenIntoLines : Text :=
  "<?xml version=\"1.0\"?>\r\n<svg\n  width=\"4\"\r  viewBox=\"0 0 2 4\"\n>\r\n<g/></svg>\r".toList

theorem document_of_load_many_lines :
    (oneImage brokenIntoLines).read "svg/a.svg".toList = .ok (Utf8.encode brokenIntoLines) ∧
      Utf8.decode (Utf8.encode brokenIntoLines) = .ok brokenIntoLines ∧
      ∃ source, Source.load (oneImage brokenIntoLines) "svg/a.svg".toList (.listed [] 0) =
          .ok (source, .listed [] 1) ∧
        hasSignature source.svg = true ∧ infer source.svg true =
          .ok (some ⟨some (.number (.int 4)), some (.number (.int 8)),
            some ⟨.int 0, .int 0, .int 2, .int 4⟩⟩) := by
  have hread : (oneImage brokenIntoLines).read "svg/a.svg".toList =
      .ok (Utf8.encode brokenIntoLines) := by
    rfl
  have htext : Utf8.decode (Utf8.encode brokenIntoLines) = .ok brokenIntoLines := by
    decide +kernel
  have hhash : (HashSupply.listed [] 0).next = .ok (numberedHash 1, .listed [] 1) := rfl
  obtain ⟨source, hload, -, hdocument⟩ := document_of_load hread htext hhash
  have hstands : rootNameStands brokenIntoLines = true ∧
      (rootTag? brokenIntoLines).all (fun tag => keepsTokens tag && hasLevelValues tag) = true ∧
      hasSignature brokenIntoLines = true := by
    decide +kernel
  have hinfer : infer brokenIntoLines true =
      .ok (some ⟨some (.number (.int 4)), some (.number (.int 8)),
        some ⟨.int 0, .int 0, .int 2, .int 4⟩⟩) := by
    decide +kernel
  obtain ⟨hname, htag, hsigned⟩ := hstands
  obtain ⟨hsignature, -, hgeometry⟩ := hdocument hname
  refine ⟨hread, htext, source, hload, hsignature.trans hsigned, ?_⟩
  rw [hgeometry (fun tag h => ?_), hinfer]
  rw [Option.mem_def.1 h] at htag
  simpa using htag

/-- A document that only a line break separates the name of the tag from the attributes in. -/
def nameBeforeLineBreak : Text := "<svg\nwidth=\"1\" height=\"1\"/>".toList

/-- A document with an attribute value on two lines. -/
def valueOnTwoLines : Text := "<svg viewBox=\"0 0 1\n 1\"/>".toList

/-- **A source may be another document than its file.** A line break behind the name of the tag is
dropped and joins the name with an attribute, and the signature is lost. One in a value is dropped
and lets the source have a view box that the file has not, since a value ends with its line. -/
theorem loaded_apart :
    (∃ source supply',
      Source.load (oneImage nameBeforeLineBreak) "svg/a.svg".toList (.listed [] 0) =
        .ok (source, supply') ∧
      hasSignature nameBeforeLineBreak = true ∧ hasSignature source.svg = false) ∧
    ∃ source supply',
      Source.load (oneImage valueOnTwoLines) "svg/a.svg".toList (.listed [] 0) =
        .ok (source, supply') ∧
      infer valueOnTwoLines true = .ok none ∧
      infer source.svg true = .ok (some ⟨some fullSize, some fullSize,
        some ⟨.int 0, .int 0, .int 1, .int 1⟩⟩) := by
  have hjoined : Utf8.decode (Utf8.encode nameBeforeLineBreak) = .ok nameBeforeLineBreak := by
    decide +kernel
  have hvalue : Utf8.decode (Utf8.encode valueOnTwoLines) = .ok valueOnTwoLines := by
    decide +kernel
  refine ⟨⟨_, _, load_eq rfl hjoined rfl, ?_, ?_⟩, _, _, load_eq rfl hvalue rfl, ?_, ?_⟩
  · decide +kernel
  · rw [svg_ofText_unifyLineBreaks]
    decide +kernel
  · decide +kernel
  · rw [svg_ofText_unifyLineBreaks]
    decide +kernel

end Pipeline

end SvgAssets
