import Hermione.CourseFile
import Hermione.OpenFile

/-!
# Files whose contents may be shared

The editor answers a request for the open file with its contents only if the file
lies in a workspace folder and does not look like one that holds credentials.  It
looks at the path from the workspace folder on, which is what VSCode reports.
-/

namespace Hermione

namespace Editor

open Utf16 (SLASH)

def BACKSLASH : UInt16 :=
  0x5C

/-- An ASCII letter in lower case, as the flag `i` of a pattern compares units: no
unit beyond ASCII equals a letter. -/
def lowerUnit (unit : UInt16) : UInt16 :=
  if 65 ≤ unit && unit ≤ 90 then unit + 32 else unit

/-- A part of a pattern that stands for itself. -/
def literal (text : String) : List Piece :=
  (js text).map .literal

/-- Basenames that name a secret however the file is spelled: the alternatives of the
pattern, in lower case. -/
def SECRET_NAME : List (List Piece) :=
  [literal ".env", literal ".env." ++ [.anything], literal ".npmrc", literal ".netrc",
    literal ".pgpass", literal "credentials"] ++
  (["rsa", "dsa", "ecdsa", "ed25519"].flatMap fun kind =>
    [literal ("id_" ++ kind), literal ("id_" ++ kind ++ ".pub")]) ++
  ["pem", "key", "p12", "pfx", "kdbx"].map fun ending => .anything :: literal ("." ++ ending)

/-- `SECRET_NAME.test` -/
def secretName (name : JsString) : Bool :=
  SECRET_NAME.any fun pattern => RegExp.test pattern (name.map lowerUnit)

/-- Directories whose whole contents are secrets. -/
def SECRET_DIRS : List JsString :=
  [js ".ssh", js ".aws", js ".gnupg", js ".kube"]

/-- The parts of a path, whichever way it is separated. -/
def pathParts (path : JsString) : List JsString :=
  ((path.map fun unit => if unit = BACKSLASH then SLASH else unit).splitOn SLASH).filter
    fun part => !part.isEmpty

/-- Whether the contents of a file may be shown to a teacher. -/
def mayShareContents (relativePath : JsString) (insideWorkspace : Bool) : Bool :=
  if !insideWorkspace then false
  else
    let parts := pathParts relativePath
    let name := parts.getLastD []
    !secretName name && !(parts.dropLast.any fun part => SECRET_DIRS.contains part)

example : mayShareContents (js "notes/environment.md") true = true := by decide +kernel

example : mayShareContents (js "certs/server.PEM") true = false := by decide +kernel

/-! ### The report -/

/-- What the editor answers a request for the open file with. -/
inductive FileReport where
  | declined
  | empty
  | file (file : OpenFile)

structure Answer where
  student : JsString
  report : FileReport
  /-- What a whole file was built from. -/
  key : Option JsString

/-- The contents that an answer carries. -/
def Answer.content (answer : Answer) : Option JsString :=
  match answer.report with
  | .file file => some file.content
  | _ => none

section Reports

variable {Uri : Type} (around : Surroundings Uri)

/-- What to answer a request with, given what is on screen. -/
def buildReport (student : JsString) (shareFileContents : Bool)
    (getWorkspaceFolder : Uri → Option JsString) (caches : Caches)
    (activeTarget : Option (Moment Uri)) : Answer × Caches :=
  if !shareFileContents then ({ student, report := .declined, key := none }, caches)
  else
    match activeTarget with
    | none => ({ student, report := .empty, key := none }, caches)
    | some moment =>
        let uri := moment.target.uri
        let inside := (getWorkspaceFolder uri).isSome
        if !mayShareContents (around.locate uri).relativePath inside then
          ({ student, report := .declined, key := none }, caches)
        else
          let (file, caches) := buildOpenFile around caches moment
          ({ student, report := .file file, key := some (snapshotKey around moment) }, caches)

end Reports

/-! ### Where a file is -/

/-- A file in a workspace folder: the directories from the file system's root to the
folder, those from there on, and the file's own name.  On Windows both separators
separate; elsewhere a name may have a backslash in it. -/
structure Place where
  root : List JsString
  inner : List JsString
  name : JsString
  separator : UInt16
  separates : separator = SLASH ∨ separator = BACKSLASH
  separated : ∀ part ∈ inner ++ [name], SLASH ∉ part ∧ separator ∉ part

namespace Place

/-- What `asRelativePath` gives for the file. -/
def relativePath (place : Place) : JsString :=
  [place.separator].intercalate (place.inner ++ [place.name])

def isSecretDir (name : JsString) : Bool :=
  SECRET_DIRS.contains (name.map lowerUnit)

/-- The file is in a secret directory, or has a secret name, in any case. -/
def Secret (place : Place) : Prop :=
  (∃ folder ∈ place.root ++ place.inner, isSecretDir folder = true) ∨
    secretName place.name = true

/-- What the editor takes for the parts of the path from the workspace folder on. -/
def parts (place : Place) : List JsString :=
  (place.inner ++ [place.name]).flatMap fun part =>
    (part.splitOn BACKSLASH).filter fun piece => !piece.isEmpty

/-- Below the workspace folder there is a secret directory, spelled as in the list, or
the name is a secret one. -/
def Refused (place : Place) : Prop :=
  (∃ folder ∈ place.parts.dropLast, folder ∈ SECRET_DIRS) ∨
    secretName (place.parts.getLastD []) = true

end Place

section Parts

variable {separator : UInt16}

/-- Splitting what was joined splits each piece. -/
theorem splitOn_intercalate_flatMap (separator : UInt16) {pieces : List JsString}
    (nonempty : pieces ≠ []) :
    ([separator].intercalate pieces).splitOn separator =
      pieces.flatMap (List.splitOn separator) := by
  induction pieces with
  | nil => exact absurd rfl nonempty
  | cons piece pieces ih =>
      cases pieces with
      | nil => simp
      | cons next pieces =>
          rw [List.intercalate_cons_cons, List.append_assoc, List.singleton_append,
            List.splitOn_append_cons_self, ih (List.cons_ne_nil _ _), ← List.flatMap_cons]

/-- A path with its backslashes turned. -/
def turned (path : JsString) : JsString :=
  path.map fun unit => if unit = BACKSLASH then SLASH else unit

theorem turned_intercalate (separates : separator = SLASH ∨ separator = BACKSLASH)
    (pieces : List JsString) :
    turned ([separator].intercalate pieces) = [SLASH].intercalate (pieces.map turned) := by
  have turns : turned [separator] = [SLASH] := by
    obtain rfl | rfl := separates <;> rfl
  induction pieces with
  | nil => rfl
  | cons piece pieces ih =>
      cases pieces with
      | nil => simp
      | cons next pieces =>
          rw [List.intercalate_cons_cons, List.map_cons, List.map_cons,
            List.intercalate_cons_cons, ← List.map_cons, ← ih]
          simp only [turned, List.map_append] at turns ⊢
          rw [turns]

theorem splitOn_turned {piece : JsString} (free : SLASH ∉ piece) :
    (turned piece).splitOn SLASH = piece.splitOn BACKSLASH := by
  induction piece with
  | nil => rfl
  | cons unit piece ih =>
      obtain ⟨other, rest⟩ : SLASH ≠ unit ∧ SLASH ∉ piece := by simpa using free
      have after := ih rest
      unfold turned at after ⊢
      rw [List.map_cons, List.splitOn_cons_eq_if_modifyHead, List.splitOn_cons_eq_if_modifyHead,
        after]
      by_cases turns : unit = BACKSLASH
      · simp [turns]
      · simp [turns, Ne.symm other]

theorem pathParts_relativePath (place : Place) : pathParts place.relativePath = place.parts := by
  have joined := turned_intercalate place.separates (place.inner ++ [place.name])
  unfold pathParts Place.relativePath Place.parts
  change ((turned _).splitOn SLASH).filter _ = _
  rw [joined, splitOn_intercalate_flatMap SLASH (by simp), List.flatMap_map, List.filter_flatMap]
  apply List.flatMap_congr
  intro part member
  rw [splitOn_turned (place.separated part member).1]

end Parts

/-! ### What is refused -/

theorem mayShareContents_eq_false_iff (place : Place) :
    mayShareContents place.relativePath true = false ↔ place.Refused := by
  unfold mayShareContents Place.Refused
  rw [pathParts_relativePath]
  dsimp only
  generalize place.parts.getLastD [] = name
  cases secretName name <;> simp

section Withheld

variable {Uri : Type} (around : Surroundings Uri)

/-- A file that is a secret is not shared, and the answer has nothing of it. -/
def Withheld (student : JsString) (shareFileContents : Bool)
    (getWorkspaceFolder : Uri → Option JsString) (caches : Caches) (moment : Moment Uri)
    (place : Place) : Prop :=
  place.Secret →
    mayShareContents (around.locate moment.target.uri).relativePath
      (getWorkspaceFolder moment.target.uri).isSome = false ∧
    (buildReport around student shareFileContents getWorkspaceFolder caches
      (some moment)).1.content = none

theorem content_of_refused {student : JsString} {shareFileContents : Bool}
    {getWorkspaceFolder : Uri → Option JsString} {caches : Caches} {moment : Moment Uri}
    (refused : mayShareContents (around.locate moment.target.uri).relativePath
      (getWorkspaceFolder moment.target.uri).isSome = false) :
    (buildReport around student shareFileContents getWorkspaceFolder caches
      (some moment)).1.content = none := by
  cases shareFileContents with
  | false => rfl
  | true => simp [buildReport, refused, Answer.content]

/-- Secret files are withheld exactly where the path from the workspace folder on tells
what they are. -/
theorem withheld_iff (student : JsString) (shareFileContents : Bool)
    (getWorkspaceFolder : Uri → Option JsString) (caches : Caches) (moment : Moment Uri)
    (place : Place)
    (located : (around.locate moment.target.uri).relativePath = place.relativePath)
    (inside : (getWorkspaceFolder moment.target.uri).isSome = true) :
    Withheld around student shareFileContents getWorkspaceFolder caches moment place ↔
      (place.Secret → place.Refused) := by
  have refusal : mayShareContents (around.locate moment.target.uri).relativePath
      (getWorkspaceFolder moment.target.uri).isSome = false ↔ place.Refused := by
    rw [located, inside]
    exact mayShareContents_eq_false_iff place
  constructor
  · intro withheld secret
    exact refusal.mp (withheld secret).1
  · intro refused secret
    have closed := refusal.mpr (refused secret)
    exact ⟨closed, content_of_refused around closed⟩

end Withheld

/-- A file by its place, in a folder that VSCode has open. -/
def onDisk : Surroundings Place :=
  { fsPath := Place.relativePath
    locate := fun place => { relativePath := place.relativePath, exercise := none }
    textAt := fun _ _ => none
    structuredPatch := fun _ _ _ => [] }

/-- A document on the screen. -/
def shownAt (place : Place) : Moment Place :=
  { target :=
      { doc :=
          { opened := 0
            text := js "Host *"
            version := 1
            isDirty := false
            languageId := js "plaintext" }
        active := none
        uri := place
        cell := false }
    repository := none
    fails := false
    asked := 0
    answered := 0 }

def home : List JsString :=
  [js "home", js "ada"]

/-- The file `config` in the home directory's `.ssh`, with that one open as a folder. -/
def sshConfig : Place :=
  { root := home ++ [js ".ssh"]
    inner := []
    name := js "config"
    separator := SLASH
    separates := .inl rfl
    separated := by decide +kernel }

/-- The same file, with the home directory open. -/
def homeConfig : Place :=
  { root := home
    inner := [js ".ssh"]
    name := js "config"
    separator := SLASH
    separates := .inl rfl
    separated := by decide +kernel }

theorem withheld_iff_home :
    Withheld onDisk (js "ada") true (fun _ => some (js "ada")) .empty (shownAt homeConfig)
      homeConfig := by
  rw [withheld_iff onDisk (js "ada") true (fun _ => some (js "ada")) .empty (shownAt homeConfig)
    homeConfig rfl rfl]
  exact fun _ => .inl (by decide +kernel)

/-- With `.ssh` itself open, what is in it is shared. -/
theorem not_withheld_ssh :
    ¬ Withheld onDisk (js "ada") true (fun _ => some (js ".ssh")) .empty (shownAt sshConfig)
      sshConfig := by
  intro withheld
  have secret : sshConfig.Secret := .inl (by decide +kernel)
  have refused := (withheld secret).1
  revert refused
  decide +kernel

end Editor

end Hermione
