import ArrayPatch.Proofs.Json.Encode
import ArrayPatch.Proofs.Json.Natural
import ArrayPatch.Proofs.Json.Read
import ArrayPatch.Settings.Json

/-!
# Settings are read from their members

An object with settings holds members that set one of the three settings, and others
that are not looked at.  If none of the three is set twice, the settings that are read
are the defaults with what the members set, one member after the other.  Every setting
has its own name, so the order of the members does not matter.  What is written for
settings is such an object.
-/

namespace ArrayPatch.Settings

open Grammar

/-- The names of the members that set something. -/
def knownKeys : List Text :=
  [identifierKey, targetKey, depthKey]

/-- A member of an object that settings are read from. -/
inductive Item where
  | identifierField (field : Text)
  | targetField (field : Text)
  | maxDepth (limit : Nat) (hlimit : limit < UInt64.size)
  | unknown (key : Text) (value : Json.Value) (hkey : key ∉ knownKeys)

namespace Item

/-- The name of a member. -/
def key : Item → Text
  | identifierField _ => identifierKey
  | targetField _ => targetKey
  | maxDepth _ _ => depthKey
  | unknown key _ _ => key

/-- The value of a member as JSON, a limit as the literal that is written for it. -/
def value : Item → Json.Value
  | identifierField field => .string (some field)
  | targetField field => .string (some field)
  | maxDepth limit _ => .number (Nat.toDigits 10 limit)
  | unknown _ value _ => value

/-- The member as JSON. -/
def member (item : Item) : Option Text × Json.Value :=
  (some item.key, item.value)

end Item

/-- The settings with what a member sets. -/
def overwrite (settings : Settings) : Item → Settings
  | .identifierField field => { settings with identifierField := field }
  | .targetField field => { settings with targetField := field }
  | .maxDepth limit _ => { settings with maxDepth := limit }
  | .unknown _ _ _ => settings

/-- None of the three settings is set twice. -/
def SetsOnce (items : List Item) : Prop :=
  ∀ key ∈ knownKeys, (items.map Item.key).count key ≤ 1

instance (items : List Item) : Decidable (SetsOnce items) :=
  List.decidableBAll _ knownKeys

variable {items : List Item} {text : Text}

/-- The value of a member that occurs at most once is found. -/
theorem member?_items {key : Text} (honce : (items.map Item.key).count key ≤ 1) :
    member? (items.map Item.member) key =
      some ((items.find? (·.key == key)).map Item.value) := by
  have hfilter : (items.map Item.member).filter (fun entry => entry.1 = some key) =
      (items.filter (·.key == key)).map Item.member := by
    rw [List.filter_map]
    congr 2
    funext item
    simp [Item.member, Bool.beq_eq_decide_eq]
  have hlength : (items.filter (·.key == key)).length ≤ 1 := by
    rwa [List.count_eq_countP, List.countP_map, List.countP_eq_length_filter] at honce
  rw [member?, hfilter, ← List.head?_filter]
  cases hfound : items.filter (·.key == key) with
  | nil => rfl
  | cons item more =>
      rw [hfound] at hlength
      obtain rfl := List.length_eq_zero_iff.mp (Nat.le_zero.mp (Nat.le_of_succ_le_succ hlength))
      rfl

/-- A setting is what the members of one name set, and no other member changes it. -/
structure IsSetBy {α : Type} (setting : Settings → α) (key : Text)
    (read? : Json.Value → Option α) : Prop where
  sets : ∀ item : Item, item.key = key → ∀ settings : Settings,
    read? item.value = some (setting (settings.overwrite item))
  keeps : ∀ item : Item, item.key ≠ key → ∀ settings : Settings,
    setting (settings.overwrite item) = setting settings

theorem isSetBy_identifierKey : IsSetBy identifierField identifierKey Json.Value.asText? := by
  constructor
  · intro item hkey settings
    cases item with
    | identifierField field => rfl
    | targetField _ => exact absurd (show targetKey = identifierKey from hkey) (by decide)
    | maxDepth _ _ => exact absurd (show depthKey = identifierKey from hkey) (by decide)
    | unknown _ _ hunknown =>
        exact absurd hkey.symm (ne_of_mem_of_not_mem (by decide) hunknown)
  · intro item hkey settings
    cases item with
    | identifierField field => exact absurd rfl hkey
    | targetField | maxDepth | unknown => rfl

theorem isSetBy_targetKey : IsSetBy targetField targetKey Json.Value.asText? := by
  constructor
  · intro item hkey settings
    cases item with
    | targetField field => rfl
    | identifierField _ => exact absurd (show identifierKey = targetKey from hkey) (by decide)
    | maxDepth _ _ => exact absurd (show depthKey = targetKey from hkey) (by decide)
    | unknown _ _ hunknown =>
        exact absurd hkey.symm (ne_of_mem_of_not_mem (by decide) hunknown)
  · intro item hkey settings
    cases item with
    | targetField field => exact absurd rfl hkey
    | identifierField | maxDepth | unknown => rfl

theorem isSetBy_depthKey : IsSetBy maxDepth depthKey Json.Value.asNatural? := by
  constructor
  · intro item hkey settings
    cases item with
    | maxDepth limit hlimit => exact Json.asNatural?_toDigits hlimit
    | identifierField _ => exact absurd (show identifierKey = depthKey from hkey) (by decide)
    | targetField _ => exact absurd (show targetKey = depthKey from hkey) (by decide)
    | unknown _ _ hunknown =>
        exact absurd hkey.symm (ne_of_mem_of_not_mem (by decide) hunknown)
  · intro item hkey settings
    cases item with
    | maxDepth limit hlimit => exact absurd rfl hkey
    | identifierField | targetField | unknown => rfl

namespace IsSetBy

variable {α : Type} {key : Text} {setting : Settings → α} {read? : Json.Value → Option α}
variable (hset : IsSetBy setting key read?)

include hset

/-- Members of other names leave a setting as it is. -/
theorem foldl_overwrite (hother : key ∉ items.map Item.key) (settings : Settings) :
    setting (items.foldl overwrite settings) = setting settings := by
  induction items generalizing settings with
  | nil => rfl
  | cons item items ih =>
      obtain ⟨hitem, hitems⟩ := not_or.mp (List.mem_cons.not.mp hother)
      rw [List.foldl_cons, ih hitems, hset.keeps item (Ne.symm hitem)]

/-- What is read for a setting is what all members together make of it. -/
theorem orDefault_find? (honce : (items.map Item.key).count key ≤ 1) (settings : Settings) :
    orDefault read? (setting settings) ((items.find? (·.key == key)).map Item.value) =
      some (setting (items.foldl overwrite settings)) := by
  induction items generalizing settings with
  | nil => rfl
  | cons item items ih =>
      rw [List.map_cons, List.count_cons] at honce
      rw [List.foldl_cons, List.find?_cons]
      by_cases hkey : item.key = key
      · -- The other members have other names.
        have hother : key ∉ items.map Item.key := by
          rw [if_pos (beq_iff_eq.mpr hkey)] at honce
          exact List.count_eq_zero.mp (Nat.le_zero.mp (Nat.le_of_succ_le_succ honce))
        rw [beq_iff_eq.mpr hkey, hset.foldl_overwrite hother]
        exact hset.sets item hkey settings
      · rw [beq_eq_false_iff_ne.mpr hkey, ← hset.keeps item hkey settings]
        exact ih (Nat.le_trans (Nat.le_add_right _ _) honce) (settings.overwrite item)

end IsSetBy

/-! ## All settings -/

/-- Two members that do not set the same setting may change places. -/
theorem overwrite_comm {first second : Item}
    (hkey : first.key ∈ knownKeys → first.key ≠ second.key) (settings : Settings) :
    (settings.overwrite first).overwrite second = (settings.overwrite second).overwrite first := by
  cases first with
  | unknown => cases second <;> rfl
  | identifierField field =>
      cases second with
      | identifierField other => exact absurd rfl (hkey (by decide : identifierKey ∈ knownKeys))
      | targetField | maxDepth | unknown => rfl
  | targetField field =>
      cases second with
      | targetField other => exact absurd rfl (hkey (by decide : targetKey ∈ knownKeys))
      | identifierField | maxDepth | unknown => rfl
  | maxDepth limit hlimit =>
      cases second with
      | maxDepth other hother => exact absurd rfl (hkey (by decide : depthKey ∈ knownKeys))
      | identifierField | targetField | unknown => rfl

/-- Members that set no setting twice set the same in any order. -/
theorem foldl_overwrite_perm {other : List Item} (hperm : items.Perm other)
    (honce : SetsOnce items) (settings : Settings) :
    other.foldl overwrite settings = items.foldl overwrite settings := by
  induction hperm generalizing settings with
  | nil => rfl
  | cons item _ ih =>
      refine ih (fun key hkey => ?_) _
      exact Nat.le_trans (List.count_le_count_cons ..) (honce key hkey)
  | swap first second items =>
      rw [List.foldl_cons, List.foldl_cons, List.foldl_cons, List.foldl_cons, overwrite_comm]
      intro hkey heq
      have htwice := honce first.key hkey
      simp [heq] at htwice
  | trans hfirst _ ihfirst ihsecond =>
      have hsecond : SetsOnce _ := fun key hkey =>
        Nat.le_trans (Nat.le_of_eq ((hfirst.map Item.key).count_eq key).symm) (honce key hkey)
      rw [ihsecond hsecond, ihfirst honce]

theorem ofJson?_items (honce : SetsOnce items) :
    ofJson? (.object (items.map Item.member)) = some (items.foldl overwrite {}) := by
  have hnamed : (items.map Item.member).all fun entry => entry.1.isSome := by
    simp [Item.member]
  have hidentifier := honce identifierKey (by decide)
  have htarget := honce targetKey (by decide)
  have hdepth := honce depthKey (by decide)
  have hidentifierField := isSetBy_identifierKey.orDefault_find? hidentifier {}
  have htargetField := isSetBy_targetKey.orDefault_find? htarget {}
  have hmaxDepth := isSetBy_depthKey.orDefault_find? hdepth {}
  dsimp only at hidentifierField htargetField hmaxDepth
  simp only [ofJson?, if_pos hnamed, member?_items hidentifier, member?_items htarget,
    member?_items hdepth, ofValues?, hidentifierField, htargetField, hmaxDepth,
    Option.bind_eq_bind, Option.bind_some, Option.pure_def]

/-- Settings that are read are refused if they are not valid. -/
theorem decode_of_read (honce : SetsOnce items)
    (hread : Json.read text = some (.object (items.map Item.member))) :
    decode text =
      (items.foldl overwrite {}).validate.map fun _ => items.foldl overwrite {} := by
  rw [decode, hread, Option.bind_eq_bind, Option.bind_some, ofJson?_items honce]
  dsimp only
  cases (items.foldl overwrite {}).validate with
  | error error => rfl
  | ok => rfl

/-- The same for the text of a tree, with blanks around it. -/
theorem decode_of_tree {blanks after : Text} {tree : Tree} (honce : SetsOnce items)
    (hblanks : AllBlank blanks) (hafter : AllBlank after) (hwell : tree.WellFormed)
    (hjson : tree.json? = some (.object (items.map Item.member))) :
    decode (blanks ++ tree.text ++ after) =
      (items.foldl overwrite {}).validate.map fun _ => items.foldl overwrite {} := by
  have hwhole := Json.readWhole_eq_some_iff.mpr
    ⟨blanks, tree, after, rfl, hblanks, hafter, hwell, hjson⟩
  exact decode_of_read honce (Option.filter_eq_some_iff.mp hwhole).1

/-! ## Written settings -/

variable {settings : Settings}

/-- A member without blanks around its colon. -/
def writtenMember (key : Text) (value : Tree) : Member :=
  .mk (StringPiece.ofText key) [] [] value

/-- The object that is written for settings. -/
def writtenTree (settings : Settings) : Tree :=
  .object [] (writtenMember identifierKey (.string (StringPiece.ofText settings.identifierField)))
    (.more [] [] (writtenMember targetKey (.string (StringPiece.ofText settings.targetField)))
      (.more [] [] (writtenMember depthKey (.literal (Nat.toDigits 10 settings.maxDepth)))
        (.done [])))

/-- The members of the object that is written for settings. -/
def writtenItems (settings : Settings) (hdepth : settings.maxDepth < UInt64.size) : List Item :=
  [.identifierField settings.identifierField, .targetField settings.targetField,
    .maxDepth settings.maxDepth hdepth]

theorem text_writtenTree (settings : Settings) : settings.writtenTree.text = settings.encode := by
  simp only [writtenTree, writtenMember, Tree.text, Members.text, Member.text,
    StringPiece.tokenText_ofText, encode, List.append_assoc, List.cons_append, List.nil_append]

theorem wellFormed_writtenTree (settings : Settings) : settings.writtenTree.WellFormed := by
  have hstring : ∀ text, (StringPiece.meaning? (StringPiece.ofText text)).isSome := by
    intro text
    rw [StringPiece.meaning?_ofText]
    rfl
  have hliteral := Json.isLiteral_of_word (Json.word_toDigits settings.maxDepth)
  have hnil := allBlank_nil
  exact ⟨hnil, ⟨hstring _, hnil, hnil, hstring _⟩, hnil, hnil, ⟨hstring _, hnil, hnil, hstring _⟩,
    hnil, hnil, ⟨hstring _, hnil, hnil, hliteral⟩, hnil⟩

theorem json?_writtenTree (hdepth : settings.maxDepth < UInt64.size) :
    settings.writtenTree.json? =
      some (.object ((settings.writtenItems hdepth).map Item.member)) := by
  have hmember : ∀ {key : Text} {value : Tree} {json : Json.Value}, value.json? = some json →
      (writtenMember key value).json? = some (some key, json) := by
    intro key value json hjson
    exact Member.json?_eq_some_iff.mpr ⟨key, json, StringPiece.jsonText?_ofText key, hjson, rfl⟩
  have hstring : ∀ text : Text,
      (Tree.string (StringPiece.ofText text)).json? = some (.string (some text)) :=
    fun text => Tree.json?_string_eq_some_iff.mpr ⟨text, StringPiece.jsonText?_ofText text, rfl⟩
  have hlimit : (writtenMember depthKey (.literal (Nat.toDigits 10 settings.maxDepth))).json? =
      some (some depthKey, .number (Nat.toDigits 10 settings.maxDepth)) :=
    hmember (Json.word_toDigits settings.maxDepth)
  refine Tree.json?_object_eq_some_iff.mpr ⟨_, _, hmember (hstring _), ?_, rfl⟩
  refine Members.json?_more_eq_some_iff.mpr ⟨_, _, hmember (hstring _), ?_, rfl⟩
  exact Members.json?_more_eq_some_iff.mpr ⟨_, [], hlimit, rfl, rfl⟩

/-- Written settings are read back if they are valid. -/
theorem decode_encode (hdepth : settings.maxDepth < UInt64.size) :
    decode settings.encode = settings.validate.map fun _ => settings := by
  have honce : SetsOnce (settings.writtenItems hdepth) := by
    change ∀ key ∈ knownKeys, knownKeys.count key ≤ 1
    decide
  have hread := decode_of_tree honce allBlank_nil allBlank_nil settings.wellFormed_writtenTree
    (json?_writtenTree hdepth)
  rwa [text_writtenTree, List.nil_append, List.append_nil] at hread

/-- What is written for settings is read back, and any object with members that set none of
the three settings twice is read as the defaults with what the members set, in whatever
order they do; in both cases settings that are not valid are refused with the fault that
they have.  The object may be any text that is read as one, and in particular the text of
any tree with strict strings, between blanks. -/
theorem decode_eq_validate :
    (∀ settings : Settings, settings.maxDepth < UInt64.size →
      decode settings.encode = settings.validate.map fun _ => settings) ∧
    (∀ (items : List Item) (text : Text), SetsOnce items →
      Json.read text = some (.object (items.map Item.member)) →
      decode text = (items.foldl overwrite {}).validate.map fun _ => items.foldl overwrite {}) ∧
    (∀ (items : List Item) (blanks : Text) (tree : Tree) (after : Text), SetsOnce items →
      AllBlank blanks → AllBlank after → tree.WellFormed →
      tree.json? = some (.object (items.map Item.member)) →
      decode (blanks ++ tree.text ++ after) =
        (items.foldl overwrite {}).validate.map fun _ => items.foldl overwrite {}) ∧
    (∀ items other : List Item, items.Perm other → SetsOnce items →
      other.foldl overwrite {} = items.foldl overwrite {}) ∧
    ∀ (settings : Settings) (error : Error), settings.validate = .error error →
      ∃ fault, settings.fault? = some fault ∧ error = .invalidSettings fault := by
  refine ⟨fun _ => decode_encode, fun _ _ => decode_of_read, fun _ _ _ _ => decode_of_tree,
    fun _ _ hperm honce => foldl_overwrite_perm hperm honce {}, ?_⟩
  intro settings error hvalidate
  rw [validate] at hvalidate
  cases hfault : settings.fault? with
  | none =>
      rw [hfault] at hvalidate
      cases hvalidate
  | some fault =>
      rw [hfault] at hvalidate
      exact ⟨fault, rfl, (Except.error.inj hvalidate).symm⟩

/-- Settings without a target field are written but not read back.  In the first object the
members are in another order, one name has an escape, and the same name occurs inside a
member without a name; the second one is a tree with blanks. -/
theorem decode_eq_validate_among_unknown :
    ∃ (settings : Settings) (items : List Item) (text : Text) (tree : Tree),
      settings = ⟨['"'], [], 0⟩ ∧ settings.maxDepth < UInt64.size ∧
      (∃ fault, settings.fault? = some fault ∧
        decode settings.encode = .error (.invalidSettings fault)) ∧
      text =
        "\x7b\"\":\x7b\"maxDepth\":0\x7d,\"\\u006daxDepth\":7,\"targetField\":\"\\n\"\x7d".toList ∧
      SetsOnce items ∧ Json.read text = some (.object (items.map Item.member)) ∧
      items.Perm items.reverse ∧
      items.reverse.foldl overwrite {} = ⟨['i', 'd'], ['\n'], 7⟩ ∧
      decode text = .ok ⟨['i', 'd'], ['\n'], 7⟩ ∧
      tree.text = "\x7b\"targetField\": \"a\"\n\x7d".toList ∧ tree.WellFormed ∧
      decode ([' '] ++ tree.text ++ []) = .ok ⟨['i', 'd'], ['a'], 512⟩ := by
  obtain ⟨hencode, hread, htree, horder, hrefused⟩ := decode_eq_validate
  have hinvalid : validate ⟨['"'], [], 0⟩ = .error (.invalidSettings .emptyTargetField) := rfl
  obtain ⟨fault, hfault, herror⟩ := hrefused _ _ hinvalid
  obtain ⟨items, hitems⟩ : ∃ items : List Item,
      items = [.unknown [] (.object [(some depthKey, .number ['0'])]) (by decide),
        .maxDepth 7 (by decide), .targetField ['\n']] := ⟨_, rfl⟩
  obtain ⟨text, htext⟩ : ∃ text : Text,
      text =
        "\x7b\"\":\x7b\"maxDepth\":0\x7d,\"\\u006daxDepth\":7,\"targetField\":\"\\n\"\x7d".toList :=
    ⟨_, rfl⟩
  have honce : SetsOnce items := by
    rw [hitems]
    decide
  have hnil := allBlank_nil
  have hnumber : ∀ n, IsLiteral (Nat.toDigits 10 n) :=
    fun n => Json.isLiteral_of_word (Json.word_toDigits n)
  have hobject : Json.read text = some (.object (items.map Item.member)) := by
    obtain ⟨named, hnamed⟩ : ∃ named : Tree, named = .object []
        (writtenMember [] (.object [] (writtenMember depthKey (.literal ['0'])) (.done [])))
        (.more [] [] (.mk (.unit "006d".toList :: StringPiece.ofText "axDepth".toList) [] []
            (.literal ['7']))
          (.more [] [] (writtenMember targetKey (.string [.letter 'n'])) (.done []))) :=
      ⟨_, rfl⟩
    have hwhole : Json.readWhole text = some (.object (items.map Item.member)) := by
      have htree : text = named.text := by
        rw [htext, hnamed]
        decide +kernel
      rw [htree]
      refine Json.readWhole_text ?_ ?_
      · rw [hnamed]
        exact ⟨hnil, ⟨rfl, hnil, hnil, hnil, ⟨rfl, hnil, hnil, hnumber 0⟩, hnil⟩,
          hnil, hnil, ⟨rfl, hnil, hnil, hnumber 7⟩, hnil, hnil,
          ⟨rfl, hnil, hnil, rfl⟩, hnil⟩
      · rw [hnamed, hitems]
        rfl
    exact (Option.filter_eq_some_iff.mp hwhole).1
  have hwell : (Tree.object [] (.mk (StringPiece.ofText targetKey) [] [' ']
      (.string [.plain 'a'])) (.done ['\n'])).WellFormed :=
    ⟨hnil, ⟨rfl, hnil, allBlank_singleton rfl, rfl⟩, allBlank_singleton rfl⟩
  have hone : SetsOnce [.targetField ['a']] := by decide
  have hset : items.foldl overwrite {} = ⟨['i', 'd'], ['\n'], 7⟩ := by
    rw [hitems]
    rfl
  have hperm := items.reverse_perm.symm
  refine ⟨_, items, text, _, rfl, by decide, ?_, htext, honce, hobject, hperm,
    (horder _ _ hperm honce).trans hset, ?_, rfl, hwell, ?_⟩
  · refine ⟨fault, hfault, ?_⟩
    rw [hencode _ (by decide), hinvalid, herror]
    rfl
  · rw [hread items text honce hobject, hset]
    rfl
  · exact htree _ _ _ _ hone (allBlank_singleton rfl) hnil hwell rfl

end ArrayPatch.Settings
