import ArrayPatch.Proofs.Grammar.Json
import ArrayPatch.Proofs.Grammar.Objects
import ArrayPatch.Proofs.Json.Encode
import ArrayPatch.Proofs.Text.Part
import ArrayPatch.Grammar.Sites
import ArrayPatch.Rendering

/-!
# Rendered arrays are trees

The rendering of a list of texts is the text of a syntax tree: an array of
string tokens without nesting.  Rendering loses nothing, as the strings of the
tree are the texts.  The only thing asked of the layout is that the property is
indented by blanks.
-/

namespace ArrayPatch

open Grammar

theorem IndentUnit.isIndent_of_mem_text {unit : IndentUnit} : ∀ c ∈ unit.text, isIndent c := by
  cases unit with
  | tab => exact List.all_eq_true.mp rfl
  | spaces count =>
      intro c hc
      obtain rfl := List.eq_of_mem_replicate hc
      rfl

namespace Layout

/-- The line break in front of an element. -/
def elementBreak (layout : Layout) (propertyIndent : Text) : Text :=
  layout.breakTo (propertyIndent ++ layout.indent.text)

/-- The rendered elements after the first one. -/
def renderMore (layout : Layout) (propertyIndent : Text) : List Text → Elements
  | [] => .done (layout.breakTo propertyIndent)
  | value :: values =>
      .more [] (layout.elementBreak propertyIndent) (.string (StringPiece.ofText value))
        (layout.renderMore propertyIndent values)

/-- The tree of a rendered array. -/
def renderTree (layout : Layout) (propertyIndent : Text) : List Text → Tree
  | [] => .emptyArray []
  | value :: values =>
      .array (layout.elementBreak propertyIndent) (.string (StringPiece.ofText value))
        (layout.renderMore propertyIndent values)

variable (layout : Layout) (propertyIndent : Text)

theorem renderElements_singleton (value : Text) :
    layout.renderElements propertyIndent [value] =
      layout.elementBreak propertyIndent ++ Json.encodeString value :=
  List.intercalate_singleton

theorem renderElements_cons_cons (value next : Text) (values : List Text) :
    layout.renderElements propertyIndent (value :: next :: values) =
      layout.elementBreak propertyIndent ++ Json.encodeString value ++
        ',' :: layout.renderElements propertyIndent (next :: values) := by
  rw [renderElements, List.map_cons, List.map_cons, List.intercalate_cons_cons, List.append_assoc]
  rfl

/-- The elements and the last line, the first element apart from the others. -/
theorem renderElements_append (value : Text) (values : List Text) :
    layout.renderElements propertyIndent (value :: values) ++
        (layout.breakTo propertyIndent ++ [']']) =
      layout.elementBreak propertyIndent ++ Json.encodeString value ++
        (layout.renderMore propertyIndent values).text := by
  induction values generalizing value with
  | nil => rw [renderElements_singleton, renderMore, Elements.text]
  | cons next values ih =>
      rw [renderElements_cons_cons, List.append_assoc, List.cons_append, ih, renderMore,
        Elements.text, Tree.text, StringPiece.tokenText_ofText]
      rfl

/-- A rendered array is the text of its tree. -/
theorem text_renderTree (values : List Text) :
    (layout.renderTree propertyIndent values).text = layout.render propertyIndent values := by
  cases values with
  | nil => rfl
  | cons value values =>
      have helements := layout.renderElements_append propertyIndent value values
      rw [← List.append_assoc] at helements
      rw [renderTree, Tree.text, Tree.text, StringPiece.tokenText_ofText, render,
        if_neg (List.cons_ne_nil value values)]
      exact congrArg ('[' :: ·) helements.symm

/-! ## The tree -/

theorem allBlank_breakTo {indentation : Text} (hblank : AllBlank indentation) :
    AllBlank (layout.breakTo indentation) := by
  have hending : AllBlank layout.ending.text := by
    cases layout.ending with
    | lf => exact List.all_eq_true.mp rfl
    | crlf => exact List.all_eq_true.mp rfl
  intro c hc
  rcases List.mem_append.mp hc with hc | hc
  · exact hending c hc
  · exact hblank c hc

theorem allBlank_indent : AllBlank layout.indent.text :=
  fun c hc => isBlank_of_isIndent (IndentUnit.isIndent_of_mem_text c hc)

theorem allBlank_elementBreak (hblank : AllBlank propertyIndent) :
    AllBlank (layout.elementBreak propertyIndent) := by
  apply allBlank_breakTo
  intro c hc
  rcases List.mem_append.mp hc with hc | hc
  · exact hblank c hc
  · exact layout.allBlank_indent c hc

theorem wellFormed_ofText (value : Text) : (Tree.string (StringPiece.ofText value)).WellFormed := by
  rw [Tree.WellFormed, StringPiece.meaning?_ofText]
  rfl

variable {propertyIndent}

theorem wellFormed_renderMore (hblank : AllBlank propertyIndent) (values : List Text) :
    (layout.renderMore propertyIndent values).WellFormed := by
  induction values with
  | nil => exact layout.allBlank_breakTo hblank
  | cons value values ih =>
      exact ⟨allBlank_nil, layout.allBlank_elementBreak propertyIndent hblank,
        wellFormed_ofText value, ih⟩

/-- A rendered array is well formed. -/
theorem wellFormed_renderTree (hblank : AllBlank propertyIndent) (values : List Text) :
    (layout.renderTree propertyIndent values).WellFormed := by
  cases values with
  | nil => exact List.forall_mem_nil _
  | cons value values =>
      exact ⟨layout.allBlank_elementBreak propertyIndent hblank, wellFormed_ofText value,
        layout.wellFormed_renderMore hblank values⟩

variable (propertyIndent)

theorem isArray_renderTree (values : List Text) :
    (layout.renderTree propertyIndent values).isArray := by
  cases values with
  | nil => rfl
  | cons => rfl

theorem depth_renderMore (values : List Text) :
    (layout.renderMore propertyIndent values).depth = 0 := by
  induction values with
  | nil => rfl
  | cons value values ih =>
      rw [renderMore, Elements.depth, ih]
      rfl

theorem depth_renderTree (values : List Text) :
    (layout.renderTree propertyIndent values).depth = 1 := by
  cases values with
  | nil => rfl
  | cons value values =>
      rw [renderTree, Tree.depth, depth_renderMore]
      rfl

theorem objects_renderMore (offset : Nat) (values : List Text) :
    (layout.renderMore propertyIndent values).objects offset = [] := by
  induction values generalizing offset with
  | nil => rfl
  | cons value values ih =>
      rw [renderMore, Elements.objects, ih]
      rfl

/-- A rendered array holds no objects. -/
theorem objects_renderTree (offset : Nat) (values : List Text) :
    (layout.renderTree propertyIndent values).objects offset = [] := by
  cases values with
  | nil => rfl
  | cons value values =>
      rw [renderTree, Tree.objects, objects_renderMore]
      rfl

theorem sites_renderTree (settings : Settings) (offset : Nat) (values : List Text) :
    (layout.renderTree propertyIndent values).sites settings offset = [] := by
  rw [Tree.sites_eq_filterMap_objects, objects_renderTree]
  rfl

/-! ## What the tree stands for -/

theorem toList_renderMore (values : List Text) :
    (layout.renderMore propertyIndent values).toList =
      values.map fun value => Tree.string (StringPiece.ofText value) := by
  induction values with
  | nil => rfl
  | cons value values ih => rw [renderMore, Elements.toList, ih, List.map_cons]

theorem mapM_meaning?_ofText (values : List Text) :
    (values.map fun value => Tree.string (StringPiece.ofText value)).mapM Tree.meaning? =
      some values := by
  induction values with
  | nil => rfl
  | cons value values ih =>
      rw [List.map_cons, List.mapM_cons, ih, Tree.meaning?, StringPiece.meaning?_ofText]
      rfl

/-- The strings of a rendered array are the texts that were rendered. -/
theorem strings?_renderTree (values : List Text) :
    (layout.renderTree propertyIndent values).strings? = some values := by
  cases values with
  | nil => rfl
  | cons value values =>
      have hmeanings := mapM_meaning?_ofText (value :: values)
      rw [renderTree, Tree.strings?, toList_renderMore]
      exact hmeanings

theorem json?_ofText (value : Text) :
    (Tree.string (StringPiece.ofText value)).json? = some (.string (some value)) :=
  Tree.json?_string_eq_some_iff.mpr ⟨value, StringPiece.jsonText?_ofText value, rfl⟩

theorem json?_renderMore (values : List Text) :
    (layout.renderMore propertyIndent values).json? =
      some (values.map fun value => .string (some value)) := by
  induction values with
  | nil => rfl
  | cons value values ih =>
      exact Elements.json?_more_eq_some_iff.mpr ⟨_, _, json?_ofText value, ih, rfl⟩

/-- A rendered array is the JSON array of the texts that were rendered. -/
theorem json?_renderTree (values : List Text) :
    (layout.renderTree propertyIndent values).json? = some (jsonTexts values) := by
  cases values with
  | nil => rfl
  | cons value values =>
      exact Tree.json?_array_eq_some_iff.mpr
        ⟨_, _, json?_ofText value, layout.json?_renderMore propertyIndent values, rfl⟩

end Layout

end ArrayPatch
