import ArrayPatch.Scan.Anywhere

/-!
# Scanners

A scanner serves requests for the same text one after the other.  It keeps a
count of the arrays and objects that are open and one list of the sites found
by all its requests.  Opening an array or object counts up, and is refused once
as many are open as the settings allow; closing it counts down, also if what is
inside it is malformed.

A `Run` is a step of a scanner: it is given what the scanner keeps, and it
yields a result or a fault and what the scanner keeps from then on.  There is
one reader for every kind of value, as there is for scans.  The readers call
each other; they end because every bracket, every key and every comma leaves
less of the text.

The readers are written for every monad of steps, of which runs are one.  They say
where a turn of one of their loops starts, which is nothing to a run.
-/

namespace ArrayPatch

/-- What a scanner keeps: how many arrays and objects are open, and the sites
found so far. -/
structure ScanState where
  depth : Nat := 0
  found : List Site := []
deriving DecidableEq, Repr

/-- What the readers of a scanner are put together from. -/
class MonadScan (m : Type → Type) extends Monad m where
  /-- A step that keeps everything as it is. -/
  ofExcept {α : Type} (result : Except Fault α) : m α
  /-- Add a site to those found, if there is one. -/
  report (site? : Option Site) : m Unit
  /-- Start a turn of a loop over elements or members at an offset. -/
  turn {α : Type} (offset : Nat) (step : m α) : m α
  /-- Take a step inside one more array or object, unless as many as the limit are
  open. -/
  nested {α : Type} (limit offset : Nat) (step : m α) : m α

/-- A step of a scanner. -/
def Run (α : Type) :=
  ScanState → Except Fault α × ScanState

namespace Run

variable {α β : Type}

/-- Run a step and then the one that its result chooses.  A fault ends the run,
and what was kept when it was met stays. -/
protected def bind (run : Run α) (next : α → Run β) : Run β := fun state =>
  match run state with
  | (.ok a, state) => next a state
  | (.error fault, state) => (.error fault, state)

/-- Run a step inside one more array or object, unless as many as the limit are
open.  The count is restored whether the step succeeds or fails. -/
def nested (limit offset : Nat) (run : Run α) : Run α := fun state =>
  if limit ≤ state.depth then
    (.error ⟨.nestingTooDeep, offset⟩, state)
  else
    let (result, state) := run { state with depth := state.depth + 1 }
    (result, { state with depth := state.depth - 1 })

instance : MonadScan Run where
  pure a := fun state => (.ok a, state)
  bind := Run.bind
  ofExcept result := fun state => (result, state)
  report site? := fun state => (.ok (), { state with found := state.found ++ site?.toList })
  turn _ run := run
  nested := Run.nested

end Run

namespace Reader

open MonadScan

variable {m : Type → Type} [MonadScan m]

/-- End with a fault. -/
def fail {α : Type} (flaw : Flaw) (offset : Nat) : m α :=
  ofExcept (.error ⟨flaw, offset⟩)

/-! ## Values -/

section Readers

variable (settings : Settings)

mutual

/-- Read a value, blanks before it included. -/
def value (cursor : Cursor) : m (After cursor) :=
  match hskip : cursor.skipBlanks with
  | ⟨offset, []⟩ => fail .expectedValue offset
  | ⟨offset, c :: rest⟩ =>
      have hrest := Cursor.length_lt_of_skipBlanks_eq hskip
      if c = '\x7b' then do
        let next ← object offset ⟨offset + 1, rest⟩
        return ⟨next.1, Cursor.length_after_lt next hrest⟩
      else if c = '[' then do
        let next ← array offset ⟨offset + 1, rest⟩
        return ⟨next.1, Cursor.length_after_lt next hrest⟩
      else do
        let token : Cursor := ⟨offset, c :: rest⟩
        let next ← ofExcept (if c = '"' then StringToken.skip token else Scan.literal token)
        return ⟨next.1, Nat.lt_of_le_of_lt (Nat.le_of_lt_succ next.2) hrest⟩
termination_by 6 * cursor.rest.length
decreasing_by all_goals omega

/-- Read an array from behind its opening bracket, which stands at `opening`. -/
def array (opening : Nat) (cursor : Cursor) : m (After cursor) :=
  nested settings.maxDepth opening (elements opening cursor)
termination_by 6 * cursor.rest.length + 2

/-- Read the elements of an array and the bracket that closes it. -/
def elements (opening : Nat) (cursor : Cursor) : m (After cursor) :=
  match hskip : cursor.skipBlanks with
  | ⟨offset, []⟩ => turn offset (fail .unterminatedArray opening)
  | ⟨offset, c :: rest⟩ =>
      have hrest := Cursor.length_lt_of_skipBlanks_eq hskip
      if c = ']' then
        return ⟨⟨offset + 1, rest⟩, hrest⟩
      else turn offset do
        let next ← value ⟨offset, c :: rest⟩
        have := next.2
        let last ← moreElements opening next.1
        return ⟨last.1, Cursor.length_after_item_lt last hrest⟩
termination_by 6 * cursor.rest.length + 1
decreasing_by all_goals (simp only [List.length_cons] at *; omega)

/-- Read the elements after the first one, and the bracket that closes the
array. -/
def moreElements (opening : Nat) (cursor : Cursor) : m (After cursor) :=
  match hskip : cursor.skipBlanks with
  | ⟨_, []⟩ => fail .unterminatedArray opening
  | ⟨offset, c :: rest⟩ =>
      have hrest := Cursor.length_lt_of_skipBlanks_eq hskip
      if c = ',' then
        have hitem : (Cursor.skipBlanks ⟨offset + 1, rest⟩).rest.length ≤ rest.length :=
          Cursor.length_skipBlanks_le _
        turn (Cursor.skipBlanks ⟨offset + 1, rest⟩).offset <|
          if (Cursor.skipBlanks ⟨offset + 1, rest⟩).rest = [] then
            fail .unterminatedArray opening
          else do
            let next ← value (Cursor.skipBlanks ⟨offset + 1, rest⟩)
            have := next.2
            let last ← moreElements opening next.1
            return ⟨last.1, Cursor.length_after_comma_lt last hrest⟩
      else if c = ']' then
        return ⟨⟨offset + 1, rest⟩, hrest⟩
      else
        fail .expectedCommaOrBracket offset
termination_by 6 * cursor.rest.length
decreasing_by all_goals omega

/-- Read an object from behind its opening brace, which stands at `opening`. -/
def object (opening : Nat) (cursor : Cursor) : m (After cursor) :=
  nested settings.maxDepth opening (members opening cursor)
termination_by 6 * cursor.rest.length + 5

/-- Read the members of an object and the brace that closes it. -/
def members (opening : Nat) (cursor : Cursor) : m (After cursor) :=
  match hskip : cursor.skipBlanks with
  | ⟨offset, []⟩ => turn offset (fail .unterminatedObject opening)
  | ⟨offset, c :: rest⟩ =>
      have hrest := Cursor.length_lt_of_skipBlanks_eq hskip
      if c = '\x7d' then
        return ⟨⟨offset + 1, rest⟩, hrest⟩
      else turn offset do
        let (slots, next) ← member opening {} ⟨offset, c :: rest⟩
        have := next.2
        let last ← moreMembers opening slots next.1
        return ⟨last.1, Cursor.length_after_item_lt last hrest⟩
termination_by 6 * cursor.rest.length + 4
decreasing_by all_goals (simp only [List.length_cons] at *; omega)

/-- Read a member of the object opened at `opening`. -/
def member (opening : Nat) (slots : Scan.Slots) (cursor : Cursor) :
    m (Scan.Slots × After cursor) :=
  match cursor.rest.head? with
  | none => fail .unterminatedObject opening
  | some c =>
      if c = '"' then do
        let (key, behindKey) ← ofExcept (StringToken.read cursor)
        have hkey : behindKey.1.rest.length < cursor.rest.length := behindKey.2
        match hskip : behindKey.1.skipBlanks with
        | ⟨_, []⟩ => fail .unterminatedObject opening
        | ⟨offset, c :: rest⟩ =>
            have hrest := Cursor.length_lt_of_skipBlanks_eq hskip
            if c = ':' then do
              have hstart : (Cursor.skipBlanks ⟨offset + 1, rest⟩).rest.length ≤ rest.length :=
                Cursor.length_skipBlanks_le _
              let (slots, next) ← memberValue opening slots key cursor.offset
                (Cursor.skipBlanks ⟨offset + 1, rest⟩)
              return ⟨slots, next.1, by have := next.2; omega⟩
            else
              fail .expectedColon offset
      else
        fail .expectedKey cursor.offset
termination_by 6 * cursor.rest.length + 3
decreasing_by all_goals omega

/-- Read the value of a member and enter it into the slots. -/
def memberValue (opening : Nat) (slots : Scan.Slots) (key : Text) (keyStart : Nat)
    (cursor : Cursor) : m (Scan.Slots × After cursor) :=
  match hcursor : cursor with
  | ⟨_, []⟩ => fail .unterminatedObject opening
  | ⟨offset, c :: rest⟩ =>
      if c = '"' ∧ key = settings.identifierField then do
        let (identifier, next) ← ofExcept (StringToken.read ⟨offset, c :: rest⟩)
        return (slots.identify identifier, next)
      else if c = '[' ∧ key = settings.targetField then do
        let next ← array offset ⟨offset + 1, rest⟩
        return (slots.aim keyStart offset next.1.offset,
          ⟨next.1, Nat.lt_succ_of_lt next.2⟩)
      else do
        let next ← value ⟨offset, c :: rest⟩
        return (slots.pass settings key, next)
termination_by 6 * cursor.rest.length + 1
decreasing_by all_goals (subst hcursor; simp only [List.length_cons]; omega)

/-- Read the members after the first one, and the brace that closes the object.
The site of the object, if it has one, is reported then. -/
def moreMembers (opening : Nat) (slots : Scan.Slots) (cursor : Cursor) :
    m (After cursor) :=
  match hskip : cursor.skipBlanks with
  | ⟨_, []⟩ => fail .unterminatedObject opening
  | ⟨offset, c :: rest⟩ =>
      have hrest := Cursor.length_lt_of_skipBlanks_eq hskip
      if c = ',' then
        have : (Cursor.skipBlanks ⟨offset + 1, rest⟩).rest.length ≤ rest.length :=
          Cursor.length_skipBlanks_le _
        turn (Cursor.skipBlanks ⟨offset + 1, rest⟩).offset do
          let (slots, next) ← member opening slots (Cursor.skipBlanks ⟨offset + 1, rest⟩)
          have := next.2
          let last ← moreMembers opening slots next.1
          return ⟨last.1, Cursor.length_after_comma_lt last hrest⟩
      else if c = '\x7d' then do
        report slots.site?
        return ⟨⟨offset + 1, rest⟩, hrest⟩
      else
        fail .expectedCommaOrBrace offset
termination_by 6 * cursor.rest.length
decreasing_by all_goals omega

end

/-! ## Arrays of strings -/

/-- Read an element and add it to the strings before it, unless one of these or
the element itself is something else. -/
def stringElement (values : Option (List Text)) (cursor : Cursor) :
    m (Option (List Text) × After cursor) :=
  match values, cursor.rest.head? with
  | some values, some '"' => do
      let (value, next) ← ofExcept (StringToken.read cursor)
      return (some (values ++ [value]), next)
  | _, _ => do
      let next ← value settings cursor
      return (none, next)

/-- Read the elements after the first one, and the bracket that closes the
array. -/
def moreStrings (opening : Nat) (values : Option (List Text)) (cursor : Cursor) :
    m (Option (List Text) × After cursor) :=
  match hskip : cursor.skipBlanks with
  | ⟨_, []⟩ => fail .unterminatedArray opening
  | ⟨offset, c :: rest⟩ =>
      have hrest := Cursor.length_lt_of_skipBlanks_eq hskip
      if c = ',' then
        have : (Cursor.skipBlanks ⟨offset + 1, rest⟩).rest.length ≤ rest.length :=
          Cursor.length_skipBlanks_le _
        turn (Cursor.skipBlanks ⟨offset + 1, rest⟩).offset <|
          if (Cursor.skipBlanks ⟨offset + 1, rest⟩).rest = [] then
            fail .unterminatedArray opening
          else do
            let (values, next) ←
              stringElement settings values (Cursor.skipBlanks ⟨offset + 1, rest⟩)
            have := next.2
            let (values, last) ← moreStrings opening values next.1
            return ⟨values, last.1, Cursor.length_after_comma_lt last hrest⟩
      else if c = ']' then
        return ⟨values, ⟨offset + 1, rest⟩, hrest⟩
      else
        fail .expectedCommaOrBracket offset
termination_by cursor.rest.length

/-- Read the elements of an array and the bracket that closes it. -/
def stringElements (opening : Nat) (cursor : Cursor) :
    m (Option (List Text) × After cursor) :=
  match hskip : cursor.skipBlanks with
  | ⟨offset, []⟩ => turn offset (fail .unterminatedArray opening)
  | ⟨offset, c :: rest⟩ =>
      have hrest := Cursor.length_lt_of_skipBlanks_eq hskip
      if c = ']' then
        return ⟨some [], ⟨offset + 1, rest⟩, hrest⟩
      else turn offset do
        let (values, next) ← stringElement settings (some []) ⟨offset, c :: rest⟩
        let (values, last) ← moreStrings settings opening values next.1
        return ⟨values, last.1, Cursor.length_after_item_lt last hrest⟩

/-- Read a value, blanks before it included, and decode it if it is an array of
strings. -/
def strings (cursor : Cursor) : m (Option (List Text) × After cursor) :=
  match hskip : cursor.skipBlanks with
  | ⟨offset, '[' :: rest⟩ => do
      let (values, next) ←
        nested settings.maxDepth offset (stringElements settings offset ⟨offset + 1, rest⟩)
      return ⟨values, next.1, Cursor.length_after_bracket_lt next hskip⟩
  | token => do
      let next ← value settings token
      return ⟨none, next.1, Cursor.length_after_blanks_lt next hskip⟩

/-! ## Requests -/

variable (text : Text) (start : Nat)

/-- The end of the value at an offset. -/
def valueAt : m Nat :=
  let tail := text.tailAt start
  if tail.fragment = 0 then do
    let next ← value settings ⟨start, tail.rest⟩
    return next.1.offset
  else
    return (Scan.fragmentEnd start tail).offset

/-- The end of the array whose opening bracket is taken to be the byte at an
offset. -/
def arrayAt : m Nat :=
  nested settings.maxDepth start <|
    let tail := text.tailAt (start + 1)
    if tail.fragment = 0 then do
      let next ← elements settings start ⟨start + 1, tail.rest⟩
      return next.1.offset
    else turn (start + 1) do
      let next ← moreElements settings start (Scan.fragmentEnd (start + 1) tail)
      return next.1.offset

/-- The end of the object whose opening brace is taken to be the byte at an
offset. -/
def objectAt : m Nat :=
  nested settings.maxDepth start <|
    let tail := text.tailAt (start + 1)
    if tail.fragment = 0 then do
      let next ← members settings start ⟨start + 1, tail.rest⟩
      return next.1.offset
    else
      turn (start + 1) (fail .expectedKey (start + 1))

/-- The strings of the array at an offset, if it is one, and its end. -/
def stringsAt : m (Option (List Text) × Nat) :=
  let tail := text.tailAt start
  if tail.fragment = 0 then do
    let (values, next) ← strings settings ⟨start, tail.rest⟩
    return (values, next.1.offset)
  else
    return (none, (Scan.fragmentEnd start tail).offset)

end Readers

end Reader

/-- Serve a request. -/
def Request.read {m : Type → Type} [MonadScan m] (settings : Settings) (text : Text) :
    Request → m Answer
  | value start => do return .stop (← Reader.valueAt settings text start)
  | array start => do return .stop (← Reader.arrayAt settings text start)
  | object start => do return .stop (← Reader.objectAt settings text start)
  | strings start => do
      let (values, offset) ← Reader.stringsAt settings text start
      return .strings values offset

/-- Serve a request by a run. -/
def Request.run (settings : Settings) (text : Text) (request : Request) : Run Answer :=
  request.read settings text

/-- A text under scan, and what is kept between requests. -/
structure Scanner extends ScanState where
  settings : Settings
  text : Text
deriving DecidableEq

namespace Scanner

/-- A scanner that has served no request yet. -/
def new (settings : Settings) (text : Text) : Scanner where
  settings
  text

/-- Serve a request and keep what it leaves behind, also if it fails. -/
def ask (scanner : Scanner) (request : Request) : Except Fault Answer × Scanner :=
  let (answer, state) := request.run scanner.settings scanner.text scanner.toScanState
  (answer, { scanner with toScanState := state })

/-- Serve requests one after the other. -/
def askAll (scanner : Scanner) : List Request → List (Except Fault Answer) × Scanner
  | [] => ([], scanner)
  | request :: requests =>
      let (answer, scanner) := scanner.ask request
      let (answers, scanner) := scanner.askAll requests
      (answer :: answers, scanner)

end Scanner

/-- Append the sites of the value at an offset to a list of sites, and give the
end of the value.  The value is read by a scanner of its own, and the list stays
as it is if the value is malformed. -/
def Scan.appendSites (text : Text) (start : Nat) (sites : List Site) :
    Except Fault Nat × List Site :=
  match (Reader.valueAt {} text start : Run Nat) {} with
  | (.ok offset, state) => (.ok offset, sites ++ state.found)
  | (.error fault, _) => (.error fault, sites)

end ArrayPatch
