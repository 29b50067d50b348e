/-
  WebBuilder.Run.Workspace — the file tools of a run and their cache.

  `WorkspaceTools` of `tools.py`: `read` keeps what it has read, `write_files`
  keeps what it has uploaded, and everything that may have changed files
  empties the cache.  A read asks the sandbox for the size first and bounds
  the transfer again; a write counts the characters of each file and the
  bytes of a batch.

  The disk of the sandbox reaches a file through symbolic links: two paths may
  lead to one place.  A failed upload and every command leave any disk.

  Main results:
    * `collect_eq` — the bounded transfer, however it is cut into chunks;
    * `watched_session` — what is cached is what a fresh read gives, as long as
      the uploads are ordinary;
    * `cached_read_not_fresh` — an upload may be over the bound of a read;
    * `cached_read_is_fresh` — every read of a run with ordinary uploads.
-/
import Mathlib
import WebBuilder.Archive.Paths
import WebBuilder.Async.Monitor

namespace WebBuilder.Workspace

open WebBuilder.Async WebBuilder.Archive

/-! ## §1. The disk. -/

def ROOT : String := "/home/user/react-app"

def MAX_FILE_BYTES : Nat := 200000

/-- The files of a sandbox.  `locate` follows the symbolic links of a path. -/
structure Disk where
  locate : String → String
  files : String → Option ByteArray

/-- The file that a path reaches. -/
def Disk.fileAt (d : Disk) (path : String) : Option ByteArray := d.files (d.locate path)

def Disk.write (d : Disk) (path : String) (data : ByteArray) : Disk :=
  { d with files := fun place => if place = d.locate path then some data else d.files place }

/-- A file of a batch: its normalised path and its text. -/
abbrev Entry := String × String

/-- `f'{ROOT}/{path}'`. -/
def full (path : String) : String := ROOT ++ "/" ++ path

def Disk.writeAll (d : Disk) (files : List Entry) : Disk :=
  files.foldl (fun d f => d.write (full f.1) f.2.toByteArray) d

/-! ## §2. The tools. -/

inductive ToolExc where
  /-- `ValueError`, with its text. -/
  | value (message : String)
  /-- The arguments of a tool do not match its schema. -/
  | validation
  /-- The file is missing. -/
  | notFound
  /-- `UnicodeDecodeError`. -/
  | decode
  | fileWrite (message : String)
  /-- Any other `Exception` of the SDK. -/
  | sdk
  /-- `asyncio.CancelledError`. -/
  | cancelled
  deriving DecidableEq

/-- A request that got no answer. -/
def ToolExc.isFault : ToolExc → Bool
  | sdk | cancelled => true
  | _ => false

def ToolExc.isException : ToolExc → Bool
  | cancelled => false
  | _ => true

/-- What the environment chooses. -/
inductive FileReply where
  | served
  /-- The stream of a file, cut into chunks. -/
  | chunks (chunks : List ByteArray)
  /-- The disk after a failed upload or a command, and whether it exited with `0`. -/
  | disk (ok : Bool) (d : Disk)

inductive FileOp where
  | memory
  | getInfo (path : String)
  | read (path : String)
  | upload (files : List Entry)
  | command (command : String)

/-- `WorkspaceTools`, beside the disk of its sandbox. -/
structure WorkspaceTools where
  disk : Disk
  cache : List Entry
  revision : Nat

abbrev Tool (α : Type) := Co WorkspaceTools FileOp ToolExc FileReply α

/-- `project_path`. -/
def projectPath (path : String) : Except ToolExc String :=
  let p := parsePath path
  if path = "" ∨ p.isAbsolute ∨ ".." ∈ p.parts ∨ '\\' ∈ path.toList then
    .error (.value "Use a relative project path without traversal")
  else if p.parts.any (· ∈ [".git", ".env", "node_modules", ".venv"]) then
    .error (.value "That path is outside editable project files")
  else if p.parts.any fun part => ".env.".toList.isPrefixOf part.toList then
    .error (.value "Environment files are not editable")
  else .ok p.str

def getInfo (path : String) : Tool Nat :=
  .await (.getInfo path)
    (fun answer s =>
      match answer with
      | .ok _ =>
          match s.disk.fileAt path with
          | some data => some (.ok data.size, s)
          | none => some (.error .notFound, s)
      | .fail e => if e.isFault then some (.error e, s) else none
      | _ => none)
    .done

/-- The chunks of `files.read(…, format='stream')`. -/
def stream (path : String) : Tool (List ByteArray) :=
  .await (.read path)
    (fun answer s =>
      match answer with
      | .ok (.chunks chunks) =>
          match s.disk.fileAt path with
          | some data => if chunks.foldl (· ++ ·) ByteArray.empty = data then some (.ok chunks, s) else none
          | none => some (.error .notFound, s)
      | .fail e => if e.isFault then some (.error e, s) else none
      | _ => none)
    .done

/-- The transfer loop: the bound holds of the decoded bytes too. -/
def collect : ByteArray → List ByteArray → Except ToolExc ByteArray
  | data, [] => .ok data
  | data, chunk :: chunks =>
      if MAX_FILE_BYTES < data.size + chunk.size then .error (.value "File exceeds the source-size limit")
      else collect (data ++ chunk) chunks

/-- The code between two awaits. -/
def memory (f : WorkspaceTools → α × WorkspaceTools) : Tool α := Co.memory .memory f

/-- `WorkspaceTools.read`. -/
def read (path : String) : Tool String :=
  match projectPath path with
  | .error e => Co.raise e
  | .ok path => do
      let cached ← memory fun s => (s.cache.lookup path, s)
      match cached with
      | some content => return content
      | none =>
          let size ← getInfo (full path)
          if MAX_FILE_BYTES < size then Co.raise (.value "File exceeds the source-size limit")
          else
            let chunks ← stream (full path)
            match collect ByteArray.empty chunks with
            | .error e => Co.raise e
            | .ok data =>
                match String.fromUTF8? data with
                | none => Co.raise .decode
                | some content =>
                    memory fun s => (content, { s with cache := (path, content) :: s.cache })

/-- The tool `read_files`. -/
def readFiles (paths : List String) : Tool Unit :=
  if paths.length < 1 ∨ 12 < paths.length then Co.raise .validation
  else Co.forEach paths fun path => (read path).bind fun _ => .done (.ok ())

structure FileChange where
  path : String
  content : String

/-- `[project_path(f.path) for f in files]`. -/
def projectPaths : List FileChange → Except ToolExc (List String)
  | [] => .ok []
  | f :: files =>
      match projectPath f.path with
      | .error e => .error e
      | .ok path => (projectPaths files).map (path :: ·)

/-- `sandbox.files.write_files`: all files, or any disk and an exception. -/
def upload (files : List Entry) : Tool Unit :=
  .await (.upload files)
    (fun answer s =>
      match answer with
      | .ok _ => some (.ok (), { s with disk := s.disk.writeAll files })
      | .fail e => if e.isFault then some (.error e, s) else none
      | .lost e (.disk _ d) => if e.isFault then some (.error e, { s with disk := d }) else none
      | _ => none)
    .done

/-- The tool `write_files`. -/
def writeFiles (files : List FileChange) : Tool Unit :=
  if files.length < 1 ∨ 12 < files.length ∨ files.any fun f => MAX_FILE_BYTES < f.content.length then
    Co.raise .validation
  else
    match projectPaths files with
    | .error e => Co.raise e
    | .ok paths =>
        if ¬ paths.Nodup then Co.raise (.value "A batch must not write the same path twice")
        else if 500000 < (files.map fun f => f.content.utf8ByteSize).sum then
          Co.raise (.value "Batch is too large")
        else do
          let batch := paths.zip (files.map FileChange.content)
          memory fun s => ((), { s with cache := [], revision := s.revision + 1 })
          (upload batch).tryCatch fun e =>
            if e.isException then
              Co.raise (.fileWrite "File upload did not complete; sandbox cleanup is required")
            else Co.raise e
          memory fun s => ((), { s with cache := batch ++ s.cache })

/-- `run_command` on the project.  It may change any file and still fail. -/
def runCommand (command : String) : Tool Bool :=
  .await (.command command)
    (fun answer s =>
      match answer with
      | .ok (.disk ok d) => some (.ok ok, { s with disk := d })
      | .fail e => some (.error e, s)
      | .lost e (.disk _ d) => some (.error e, { s with disk := d })
      | _ => none)
    .done

/-- `\s` of a regular expression. -/
def isSpace (c : Char) : Bool :=
  c.toNat ∈ [9, 10, 11, 12, 13, 28, 29, 30, 31, 32, 133, 160, 5760, 8232, 8233, 8239, 8287, 12288] ∨
    8192 ≤ c.toNat ∧ c.toNat ≤ 8202

/-- `\w`; beyond ASCII it is for `letter` to say. -/
def isWord (letter : Char → Bool) (c : Char) : Bool := c.isAlphanum || c = '_' || (127 < c.toNat && letter c)

/-- The text after `word` and at least one space. -/
def afterWord (word : String) (text : List Char) : Option (List Char) :=
  if word.toList.isPrefixOf text then
    match text.drop word.length with
    | c :: rest => if isSpace c then some (rest.dropWhile isSpace) else none
    | [] => none
  else none

/-- `\.{1,2}(?:\s|$)`, at the start of the text. -/
def relativePath : List Char → Bool
  | ['.'] => true
  | ['.', '.'] => true
  | '.' :: '.' :: c :: _ => isSpace c
  | '.' :: c :: _ => isSpace c
  | _ => false

/-- `npm\s+(?:i|install)\s+(?:\.{1,2})(?:\s|$)`. -/
def installsRelative (text : List Char) : Bool :=
  text.tails.any fun rest =>
    (afterWord "npm" rest).any fun rest =>
      (afterWord "i" rest).any relativePath || (afterWord "install" rest).any relativePath

/-- `npm\s+run\s+(?:dev|start)\b`. -/
def startsServer (letter : Char → Bool) (text : List Char) : Bool :=
  text.tails.any fun rest =>
    ((afterWord "npm" rest).bind (afterWord "run")).any fun rest =>
      ["dev", "start"].any fun word =>
        word.toList.isPrefixOf rest && !(rest.drop word.length).head?.any (isWord letter)

/-- The checks of `execute_command` on the text of a command. -/
def checkCommand (letter : Char → Bool) (command : String) : Option String :=
  if 2000 < command.length then some "Command is too long"
  else if installsRelative command.toList then some "Relative imports are not npm packages"
  else if startsServer letter command.toList then some "The template already runs the dev server"
  else none

/-- The tool `execute_command`. -/
def executeCommand (letter : Char → Bool) (command : String) : Tool Unit :=
  match checkCommand letter command with
  | some message => Co.raise (.value message)
  | none => do
      -- the shell can modify files even on failed commands
      let _ ← (runCommand command).onExit (memory fun s => ((), { s with cache := [], revision := s.revision + 1 }))
      return

inductive ToolCall where
  | readFiles (paths : List String)
  | writeFiles (files : List FileChange)
  | executeCommand (command : String)

def runTool (letter : Char → Bool) : ToolCall → Tool Unit
  | .readFiles paths => readFiles paths
  | .writeFiles files => writeFiles files
  | .executeCommand command => executeCommand letter command

/-- Any sequence of tool calls; the editor goes on after one that fails. -/
def session (letter : Char → Bool) (calls : List ToolCall) : Tool Unit :=
  Co.forEach calls fun call => (runTool letter call).attempt.bind fun _ => .done (.ok ())

/-! ## §3. A fresh read. -/

/-- The text of a file, or why it is refused. -/
def readable : Option ByteArray → Except ToolExc String
  | none => .error .notFound
  | some data =>
      if MAX_FILE_BYTES < data.size then .error (.value "File exceeds the source-size limit")
      else (String.fromUTF8? data).elim (.error .decode) .ok

/-- What a read gives that does not look at the cache. -/
def freshRead (d : Disk) (path : String) : Except ToolExc String :=
  match projectPath path with
  | .error e => .error e
  | .ok path => readable (d.fileAt (full path))

/-- **The bounded transfer**, however the stream is cut. -/
theorem collect_eq (chunks : List ByteArray) (data : ByteArray) (h : data.size ≤ MAX_FILE_BYTES) :
    collect data chunks = if MAX_FILE_BYTES < (chunks.foldl (· ++ ·) data).size
      then .error (.value "File exceeds the source-size limit") else .ok (chunks.foldl (· ++ ·) data) := by
  induction chunks generalizing data with
  | nil => simp [collect, Nat.not_lt.mpr h]
  | cons chunk chunks ih =>
      have hgrow : ∀ (chunks : List ByteArray) (data : ByteArray), data.size ≤ (chunks.foldl (· ++ ·) data).size := by
        intro chunks
        induction chunks with
        | nil => exact fun data => Nat.le_refl _
        | cons chunk chunks ih =>
            intro data
            have hle := ih (data ++ chunk)
            rw [ByteArray.size_append] at hle
            exact Nat.le_trans (Nat.le_add_right _ _) hle
      unfold collect
      split
      · rename_i hover
        have hle := hgrow chunks (data ++ chunk)
        rw [ByteArray.size_append] at hle
        exact (if_pos (Nat.lt_of_lt_of_le hover hle)).symm
      · rename_i hunder
        exact ih (data ++ chunk) (by rw [ByteArray.size_append]; omega)

/-- What is written is read back, if it is within the bound of a read. -/
theorem readable_toByteArray {content : String} (h : content.utf8ByteSize ≤ MAX_FILE_BYTES) :
    readable (some content.toByteArray) = .ok content := by
  have hsize : ¬ MAX_FILE_BYTES < content.toByteArray.size := by
    rw [String.size_toByteArray]
    omega
  have hdecode : String.fromUTF8? content.toByteArray = some content := dif_pos content.isValidUTF8
  have hunder : readable (some content.toByteArray)
      = (String.fromUTF8? content.toByteArray).elim (.error .decode) .ok := if_neg hsize
  rw [hunder, hdecode]
  rfl

/-! ## §4. Uploads. -/

/-- Each file of a batch can be read back, and two files of the batch that
reach one place have the same text. -/
def OrdinaryUpload (d : Disk) (files : List Entry) : Prop :=
  (∀ f ∈ files, f.2.utf8ByteSize ≤ MAX_FILE_BYTES) ∧
    ∀ f ∈ files, ∀ g ∈ files, d.locate (full f.1) = d.locate (full g.1) → f.2 = g.2

theorem locate_writeAll (files : List Entry) (d : Disk) : (d.writeAll files).locate = d.locate := by
  induction files generalizing d with
  | nil => rfl
  | cons f files ih => exact ih _

/-- The last file of a batch that reaches the place of a path is found there. -/
theorem fileAt_writeAll (files : List Entry) (d : Disk) (path : String) :
    (∃ f ∈ files, d.locate (full f.1) = d.locate path ∧ (d.writeAll files).fileAt path = some f.2.toByteArray) ∨
      ((∀ f ∈ files, d.locate (full f.1) ≠ d.locate path) ∧ (d.writeAll files).fileAt path = d.fileAt path) := by
  induction files generalizing d with
  | nil => exact .inr ⟨by simp, rfl⟩
  | cons f files ih =>
      rcases ih (d.write (full f.1) f.2.toByteArray) with ⟨g, hg, hplace, hfile⟩ | ⟨hplaces, hfile⟩
      · exact .inl ⟨g, List.mem_cons_of_mem _ hg, hplace, hfile⟩
      · have hwrite : (d.writeAll (f :: files)).fileAt path = (d.write (full f.1) f.2.toByteArray).fileAt path := hfile
        by_cases hf : d.locate (full f.1) = d.locate path
        · refine .inl ⟨f, List.mem_cons_self, hf, ?_⟩
          rw [hwrite]
          exact if_pos hf.symm
        · refine .inr ⟨?_, ?_⟩
          · intro g hg
            rcases List.mem_cons.mp hg with rfl | hg
            · exact hf
            · exact hplaces g hg
          · rw [hwrite]
            exact if_neg (Ne.symm hf)

/-- After an ordinary upload, each file of the batch is read back. -/
theorem readable_writeAll {files : List Entry} {d : Disk} (h : OrdinaryUpload d files) {f : Entry} (hf : f ∈ files) :
    readable ((d.writeAll files).fileAt (full f.1)) = .ok f.2 := by
  rcases fileAt_writeAll files d (full f.1) with ⟨g, hg, hplace, hfile⟩ | ⟨hplaces, _⟩
  · rw [hfile, h.2 g hg f hf hplace]
    exact readable_toByteArray (h.1 f hf)
  · exact absurd rfl (hplaces f hf)

/-! ## §5. The cache. -/

/-- What is cached is what a fresh read gives. -/
def CacheFresh (s : WorkspaceTools) : Prop :=
  ∀ path content, s.cache.lookup path = some content → readable (s.disk.fileAt (full path)) = .ok content

abbrev ToolStep := Step WorkspaceTools FileOp ToolExc FileReply

/-- A successful upload is ordinary. -/
def Ordinary (st : ToolStep) : Prop :=
  match st.op, st.raised with
  | .upload files, none => OrdinaryUpload st.before.disk files
  | _, _ => True

/-- Whether all uploads so far were ordinary. -/
def uploads : Monitor WorkspaceTools FileOp ToolExc FileReply Prop where
  next m st := m ∧ Ordinary st
  ok _ _ := True

/-- Only these tools change project files. -/
def Alone (s s' : WorkspaceTools) : Prop := s' = s

section Cache

variable {s : WorkspaceTools} {m : Prop}

theorem mem_of_lookup {entries : List Entry} {path content : String} (h : entries.lookup path = some content) :
    (path, content) ∈ entries := by
  obtain ⟨before, after, rfl, _⟩ := List.lookup_eq_some_iff.mp h
  simp

theorem cacheFresh_nil (h : s.cache = []) : CacheFresh s := by
  intro path content hlookup
  rw [h] at hlookup
  cases hlookup

/-- A file that was just read may be cached. -/
theorem cacheFresh_cons {path content : String} (h : CacheFresh s)
    (hread : readable (s.disk.fileAt (full path)) = .ok content) :
    CacheFresh { s with cache := (path, content) :: s.cache } := by
  intro path' content' hlookup
  by_cases hpath : path' = path
  · subst hpath
    simp only [List.lookup_cons_self, Option.some.injEq] at hlookup
    exact hlookup ▸ hread
  · have hne : (path' == path) = false := by simpa using hpath
    simp only [List.lookup_cons, hne] at hlookup
    exact h path' content' hlookup

/-! ## §6. The tools keep it fresh. -/

theorem watched_memory {f : WorkspaceTools → α × WorkspaceTools} {Q : Except ToolExc α → WorkspaceTools → Prop → Prop}
    (h : Q (.ok (f s).1) (f s).2 (m ∧ True)) : Watched Alone uploads (memory f) Q s m := by
  refine Watched.memory fun s₁ d halone => ?_
  obtain rfl : s₁ = s := halone
  exact ⟨trivial, h⟩

/-- The size of the file, if there is one. -/
theorem watched_getInfo (path : String) : Watched Alone uploads (getInfo path) (fun r s' m' => s = s' ∧ (m' → m) ∧
    ((∃ e, r = .error e ∧ e.isFault = true) ∨ (s.disk.fileAt path = none ∧ r = .error .notFound) ∨
      ∃ data, s.disk.fileAt path = some data ∧ r = .ok data.size)) s m := by
  intro s₁ halone answer r s₂ hact
  obtain rfl : s₁ = s := halone
  refine ⟨trivial, ?_⟩
  cases answer with
  | ok d =>
      simp only at hact
      split at hact
      · rename_i data hdata
        simp only [Option.some.injEq, Prod.mk.injEq] at hact
        obtain ⟨rfl, rfl⟩ := hact
        exact ⟨rfl, And.left, .inr (.inr ⟨data, hdata, rfl⟩)⟩
      · rename_i hnone
        simp only [Option.some.injEq, Prod.mk.injEq] at hact
        obtain ⟨rfl, rfl⟩ := hact
        exact ⟨rfl, And.left, .inr (.inl ⟨hnone, rfl⟩)⟩
  | fail e =>
      simp only [Option.ite_none_right_eq_some, Option.some.injEq, Prod.mk.injEq] at hact
      obtain ⟨he, rfl, rfl⟩ := hact
      exact ⟨rfl, And.left, .inl ⟨e, rfl, he⟩⟩
  | lost | late => cases hact

/-- The chunks of the file. -/
theorem watched_stream (path : String) {data : ByteArray} (hdata : s.disk.fileAt path = some data) :
    Watched Alone uploads (stream path) (fun r s' m' => s = s' ∧ (m' → m) ∧
      ((∃ e, r = .error e ∧ e.isFault = true) ∨
        ∃ chunks, r = .ok chunks ∧ chunks.foldl (· ++ ·) ByteArray.empty = data)) s m := by
  intro s₁ halone answer r s₂ hact
  obtain rfl : s₁ = s := halone
  refine ⟨trivial, ?_⟩
  cases answer with
  | ok reply =>
      cases reply with
      | chunks chunks =>
          simp only [hdata, Option.ite_none_right_eq_some, Option.some.injEq, Prod.mk.injEq] at hact
          obtain ⟨hchunks, rfl, rfl⟩ := hact
          exact ⟨rfl, And.left, .inr ⟨chunks, rfl, hchunks⟩⟩
      | served | disk => cases hact
  | fail e =>
      simp only [Option.ite_none_right_eq_some, Option.some.injEq, Prod.mk.injEq] at hact
      obtain ⟨he, rfl, rfl⟩ := hact
      exact ⟨rfl, And.left, .inl ⟨e, rfl, he⟩⟩
  | lost | late => cases hact

/-- A read that gets its answers gives what a fresh read gives. -/
structure ReadSpec (s : WorkspaceTools) (m : Prop) (path : String) (r : Except ToolExc String) (s' : WorkspaceTools)
    (m' : Prop) : Prop where
  disk : s'.disk = s.disk
  ordinary : m' → m
  fresh : CacheFresh s → CacheFresh s'
  answer : CacheFresh s → r = freshRead s.disk path ∨ ∃ e, r = .error e ∧ e.isFault = true

/-- **`read`** keeps the cache fresh. -/
theorem watched_read (path : String) :
    Watched Alone uploads (read path) (fun r s' m' => ReadSpec s m path r s' m') s m := by
  unfold read
  cases hpath : projectPath path with
  | error e => exact ⟨rfl, id, id, fun _ => .inl (by rw [freshRead, hpath])⟩
  | ok path' =>
      have hfresh : freshRead s.disk path = readable (s.disk.fileAt (full path')) := by
        rw [freshRead, hpath]
      have hfault : ∀ {e : ToolExc} {m' : Prop}, e.isFault = true → (m' → m) → ReadSpec s m path (.error e) s m' :=
        fun he hm => ⟨rfl, hm, id, fun _ => .inr ⟨_, rfl, he⟩⟩
      refine Watched.bind (P := fun r s' m' => r = .ok (s.cache.lookup path') ∧ s = s' ∧ (m' → m))
        (watched_memory ⟨rfl, rfl, And.left⟩) ?_ fun e _ _ h => by cases h.1
      rintro _ _ m₁ ⟨hcached, rfl, hm₁⟩
      obtain rfl := Except.ok.inj hcached
      cases hlookup : s.cache.lookup path' with
      | some content =>
          exact ⟨rfl, hm₁, id, fun hcache => .inl (by rw [hfresh, hcache path' content hlookup])⟩
      | none =>
          refine Watched.bind (watched_getInfo (full path')) ?_ ?_
          · rintro size _ m₂ ⟨rfl, hm₂, ⟨e, he, _⟩ | ⟨_, he⟩ | ⟨data, hdata, hsize⟩⟩
            · cases he
            · cases he
            · obtain rfl := Except.ok.inj hsize
              rw [hdata] at hfresh
              split
              · rename_i hover
                exact ⟨rfl, hm₁ ∘ hm₂, id, fun _ => .inl (by rw [hfresh]; exact (if_pos hover).symm)⟩
              · rename_i hunder
                refine Watched.bind (watched_stream (full path') hdata) ?_ ?_
                · rintro chunks _ m₃ ⟨rfl, hm₃, ⟨e, he, _⟩ | ⟨chunks', hchunks, hdata'⟩⟩
                  · cases he
                  · obtain rfl := Except.ok.inj hchunks
                    rw [collect_eq chunks ByteArray.empty (by decide), hdata', if_neg hunder]
                    have hread : readable (some data) = (String.fromUTF8? data).elim (.error .decode) .ok :=
                      if_neg hunder
                    rw [hread] at hfresh
                    dsimp only
                    split
                    · rename_i hdecode
                      rw [hdecode] at hfresh
                      exact ⟨rfl, hm₁ ∘ hm₂ ∘ hm₃, id, fun _ => .inl hfresh.symm⟩
                    · rename_i content hdecode
                      rw [hdecode] at hfresh
                      refine watched_memory ⟨rfl, hm₁ ∘ hm₂ ∘ hm₃ ∘ And.left, fun hcache => ?_, fun _ => .inl hfresh.symm⟩
                      refine cacheFresh_cons hcache ?_
                      rw [hdata, hread, hdecode]
                      rfl
                · rintro e _ m₃ ⟨rfl, hm₃, ⟨e', he, hfault'⟩ | ⟨_, he, _⟩⟩
                  · obtain rfl := Except.error.inj he
                    exact hfault hfault' (hm₁ ∘ hm₂ ∘ hm₃)
                  · cases he
          · rintro e _ m₂ ⟨rfl, hm₂, ⟨e', he, hfault'⟩ | ⟨hnone, he⟩ | ⟨_, _, he⟩⟩
            · obtain rfl := Except.error.inj he
              exact hfault hfault' (hm₁ ∘ hm₂)
            · obtain rfl := Except.error.inj he
              exact ⟨rfl, hm₁ ∘ hm₂, id, fun _ => .inl (by rw [hfresh, hnone]; rfl)⟩
            · cases he

/-- A tool keeps the cache fresh, as far as its uploads are ordinary. -/
def ToolSpec (s : WorkspaceTools) (m : Prop) (s' : WorkspaceTools) (m' : Prop) : Prop :=
  (m' → m) ∧ (m' → CacheFresh s → CacheFresh s')

theorem toolSpec_refl (s : WorkspaceTools) (m : Prop) : ToolSpec s m s m := ⟨id, fun _ => id⟩

theorem toolSpec_trans {s₁ s₂ s₃ : WorkspaceTools} {m₁ m₂ m₃ : Prop} (h : ToolSpec s₁ m₁ s₂ m₂)
    (h' : ToolSpec s₂ m₂ s₃ m₃) : ToolSpec s₁ m₁ s₃ m₃ :=
  ⟨h.1 ∘ h'.1, fun hm hcache => h'.2 hm (h.2 (h'.1 hm) hcache)⟩

theorem watched_readFiles (paths : List String) :
    Watched Alone uploads (readFiles paths) (fun _ s' m' => ToolSpec s m s' m') s m := by
  unfold readFiles
  split
  · exact toolSpec_refl s m
  · refine Watched.forEach (I := fun s' m' => ToolSpec s m s' m') (fun path s' m' hspec => ?_) (fun _ _ h => h) paths s m
      (toolSpec_refl s m)
    refine Watched.bind (watched_read path) (fun _ _ _ h => ?_) fun _ _ _ h => ?_
    · exact toolSpec_trans hspec ⟨h.ordinary, fun _ => h.fresh⟩
    · exact toolSpec_trans hspec ⟨h.ordinary, fun _ => h.fresh⟩

/-- **An upload** leaves the cache empty; what an ordinary one wrote can be read back. -/
theorem watched_upload (files : List Entry) (hcache : s.cache = []) :
    Watched Alone uploads (upload files) (fun r s' m' => (m' → m) ∧ s'.cache = [] ∧
      (r = .ok () → m' → ∀ f ∈ files, readable (s'.disk.fileAt (full f.1)) = .ok f.2)) s m := by
  intro s₁ halone answer r s₂ hact
  obtain rfl : s₁ = s := halone
  refine ⟨trivial, And.left, ?_⟩
  cases answer with
  | ok reply =>
      simp only [Option.some.injEq, Prod.mk.injEq] at hact
      obtain ⟨rfl, rfl⟩ := hact
      refine ⟨hcache, fun _ hm f hf => ?_⟩
      have hordinary : OrdinaryUpload s₁.disk files := hm.2
      exact readable_writeAll hordinary hf
  | fail e =>
      simp only [Option.ite_none_right_eq_some, Option.some.injEq, Prod.mk.injEq] at hact
      obtain ⟨_, rfl, rfl⟩ := hact
      exact ⟨hcache, nofun⟩
  | lost e reply =>
      cases reply with
      | disk ok d =>
          simp only [Option.ite_none_right_eq_some, Option.some.injEq, Prod.mk.injEq] at hact
          obtain ⟨_, rfl, rfl⟩ := hact
          exact ⟨hcache, nofun⟩
      | served | chunks => cases hact
  | late => cases hact

theorem watched_writeFiles (files : List FileChange) :
    Watched Alone uploads (writeFiles files) (fun _ s' m' => ToolSpec s m s' m') s m := by
  unfold writeFiles
  split
  · exact toolSpec_refl s m
  · split
    · exact toolSpec_refl s m
    · rename_i paths _
      split
      · exact toolSpec_refl s m
      · split
        · exact toolSpec_refl s m
        · refine Watched.bind (P := fun _ s' m' => (m' → m) ∧ s'.cache = []) (watched_memory ⟨And.left, rfl⟩) ?_
            fun _ _ _ h => ⟨h.1, fun _ _ => cacheFresh_nil h.2⟩
          rintro _ s₁ m₁ ⟨hm₁, hcache⟩
          refine Watched.bind (P := fun r s' m' => (m' → m₁) ∧ s'.cache = [] ∧ (r = .ok () → m' →
              ∀ f ∈ paths.zip (files.map FileChange.content), readable (s'.disk.fileAt (full f.1)) = .ok f.2)) ?_ ?_ ?_
          · refine Watched.tryCatch (watched_upload _ hcache) (fun _ _ _ h => h) fun e s' m' h => ?_
            split
            · exact ⟨h.1, h.2.1, nofun⟩
            · exact ⟨h.1, h.2.1, nofun⟩
          · rintro _ s₂ m₂ ⟨hm₂, hcache₂, hread⟩
            refine watched_memory ⟨hm₁ ∘ hm₂ ∘ And.left, fun hm _ path content hlookup => ?_⟩
            -- nothing but the batch is cached now
            rw [show (paths.zip (files.map FileChange.content) ++ s₂.cache)
              = paths.zip (files.map FileChange.content) by rw [hcache₂, List.append_nil]] at hlookup
            exact hread rfl hm.1 (path, content) (mem_of_lookup hlookup)
          · exact fun _ _ _ h => ⟨hm₁ ∘ h.1, fun _ _ => cacheFresh_nil h.2.1⟩

/-- **A command** empties the cache, however it ends. -/
theorem watched_executeCommand (letter : Char → Bool) (command : String) :
    Watched Alone uploads (executeCommand letter command) (fun _ s' m' => ToolSpec s m s' m') s m := by
  unfold executeCommand
  split
  · exact toolSpec_refl s m
  · refine Watched.bind (P := fun _ s' m' => (m' → m) ∧ s'.cache = []) ?_
      (fun _ _ _ h => ⟨h.1, fun _ _ => cacheFresh_nil h.2⟩) fun _ _ _ h => ⟨h.1, fun _ _ => cacheFresh_nil h.2⟩
    refine Watched.onExit (P := fun _ _ m' => m' → m) ?_ fun _ _ _ h => watched_memory ⟨h ∘ And.left, rfl⟩
    intro s₁ _ answer r s₂ _
    exact ⟨trivial, And.left⟩

/-- **Step lemma**: every tool call. -/
theorem watched_runTool (letter : Char → Bool) (call : ToolCall) :
    Watched Alone uploads (runTool letter call) (fun _ s' m' => ToolSpec s m s' m') s m := by
  cases call with
  | readFiles paths => exact watched_readFiles paths
  | writeFiles files => exact watched_writeFiles files
  | executeCommand command => exact watched_executeCommand letter command

/-- **Run lemma**: any number of them. -/
theorem watched_session (letter : Char → Bool) (calls : List ToolCall) :
    Watched Alone uploads (session letter calls) (fun _ s' m' => ToolSpec s m s' m') s m := by
  refine Watched.forEach (I := fun s' m' => ToolSpec s m s' m') (fun call s' m' hspec => ?_) (fun _ _ h => h) calls s m
    (toolSpec_refl s m)
  exact Watched.attempt_bind (watched_runTool letter call) fun _ _ _ h => toolSpec_trans hspec h

end Cache

/-! ## §7. Runs. -/

/-- All uploads of a trace were ordinary. -/
theorem uploads_after {steps : List ToolStep} {m : Prop} (hm : m) (h : ∀ st ∈ steps, Ordinary st) :
    uploads.after m steps := by
  induction steps generalizing m with
  | nil => exact hm
  | cons st steps ih =>
      exact ih ⟨hm, h st List.mem_cons_self⟩ fun st' hst' => h st' (List.mem_cons_of_mem _ hst')

/-- **A cached read is a fresh read**: after any tool calls whose successful
uploads were ordinary, a read that gets its answers gives exactly what a fresh
read of the disk gives. -/
theorem cached_read_is_fresh (letter : Char → Bool) (calls : List ToolCall) {s s' : WorkspaceTools}
    {steps : List ToolStep} {out : Except ToolExc Unit} (hstart : s.cache = [])
    (h : Performs Alone s (session letter calls) steps s' (.done out)) (hordinary : ∀ st ∈ steps, Ordinary st)
    (path : String) {reading : List ToolStep} {s'' : WorkspaceTools} {r : Except ToolExc String}
    (hread : Performs Alone s' (read path) reading s'' (.done r)) :
    r = freshRead s'.disk path ∨ ∃ e, r = .error e ∧ e.isFault = true := by
  have hm : uploads.after True steps := uploads_after trivial hordinary
  have hspec : ToolSpec s True s' (uploads.after True steps) := (watched_session letter calls).performs h
  have hcache := hspec.2 hm (cacheFresh_nil hstart)
  have hanswer : ReadSpec s' True path r s'' (uploads.after True reading) := (watched_read path).performs hread
  exact hanswer.answer hcache

/-! ## §8. Where the two bounds differ. -/

/-- `'€' * n`: three bytes a character. -/
def euros (n : Nat) : String := String.ofList (List.replicate n '€')

theorem length_euros (n : Nat) : (euros n).length = n := by
  simp [euros]

theorem utf8ByteSize_euros (n : Nat) : (euros n).utf8ByteSize = 3 * n := by
  induction n with
  | zero => rfl
  | succ n ih =>
      have hcons : euros (n + 1) = String.singleton '€' ++ euros n := by
        simp [euros, List.replicate_succ, String.ofList_cons]
      have hsize : (String.singleton '€').utf8ByteSize = 3 := by decide
      rw [hcons, String.utf8ByteSize_append, ih, hsize]
      omega

/-- An empty project without symbolic links. -/
def emptyTools : WorkspaceTools := ⟨⟨id, fun _ => none⟩, [], 0⟩

/-- The tool on one file within the bounds. -/
theorem writeFiles_one {path content : String} (hpath : projectPath path = .ok path)
    (hlength : content.length ≤ MAX_FILE_BYTES) (hbatch : content.utf8ByteSize ≤ 500000) :
    writeFiles [⟨path, content⟩] = (memory fun s => ((), { s with cache := [], revision := s.revision + 1 })).bind fun _ =>
      ((upload [(path, content)]).tryCatch fun e =>
        if e.isException then Co.raise (.fileWrite "File upload did not complete; sandbox cleanup is required")
        else Co.raise e).bind fun _ =>
      memory fun s => ((), { s with cache := [(path, content)] ++ s.cache }) := by
  have hpaths : projectPaths [⟨path, content⟩] = .ok [path] := by
    simp only [projectPaths, hpath]
    rfl
  unfold writeFiles
  rw [if_neg (by simpa using hlength), hpaths]
  dsimp only
  rw [if_neg (by simp), if_neg (by simpa using hbatch)]
  rfl

/-- One file is written and nothing goes wrong. -/
theorem performs_write (letter : Char → Bool) {content : String} (hlength : content.length ≤ MAX_FILE_BYTES)
    (hbatch : content.utf8ByteSize ≤ 500000) : ∃ steps,
      Performs Alone emptyTools (session letter [.writeFiles [⟨"a.txt", content⟩]]) steps
        ⟨emptyTools.disk.writeAll [("a.txt", content)], [("a.txt", content)], 1⟩ (.done (.ok ())) ∧
      ∀ st ∈ steps, ∀ files, st.op = .upload files → files = [("a.txt", content)] := by
  have hsession : session letter [.writeFiles [⟨"a.txt", content⟩]]
      = ((writeFiles [⟨"a.txt", content⟩]).attempt.bind fun _ => .done (.ok ())).bind fun _ => .done (.ok ()) := rfl
  have hperform : ∃ steps, Co.perform [.ok FileReply.served, .ok .served, .ok .served]
      (session letter [.writeFiles [⟨"a.txt", content⟩]]) emptyTools
        = some (steps, ⟨emptyTools.disk.writeAll [("a.txt", content)], [("a.txt", content)], 1⟩, .done (.ok ())) ∧
      ∀ st ∈ steps, ∀ files, st.op = .upload files → files = [("a.txt", content)] := by
    rw [hsession, writeFiles_one (by decide) hlength hbatch]
    refine ⟨_, rfl, fun st hst files hop => ?_⟩
    simp only [List.mem_cons, List.not_mem_nil, or_false] at hst
    rcases hst with rfl | rfl | rfl
    · cases hop
    · exact (FileOp.upload.inj hop).symm
    · cases hop
  obtain ⟨steps, hrun, huploads⟩ := hperform
  exact ⟨steps, Co.perform_performs (R := Alone) (fun _ => rfl) _ hrun, huploads⟩

/-- A cached read of it. -/
theorem performs_cached {content : String} {d : Disk} (revision : Nat) : ∃ reading,
    Performs Alone ⟨d, [("a.txt", content)], revision⟩ (read "a.txt") reading ⟨d, [("a.txt", content)], revision⟩
      (.done (.ok content)) := by
  have hpath : projectPath "a.txt" = .ok "a.txt" := by decide
  have hperform : ∃ reading, Co.perform [.ok FileReply.served] (read "a.txt") ⟨d, [("a.txt", content)], revision⟩
      = some (reading, ⟨d, [("a.txt", content)], revision⟩, .done (.ok content)) := by
    unfold read
    rw [hpath]
    exact ⟨_, rfl⟩
  obtain ⟨reading, hrun⟩ := hperform
  exact ⟨reading, Co.perform_performs (R := Alone) (fun _ => rfl) _ hrun⟩

theorem freshRead_written (content : String) :
    freshRead (emptyTools.disk.writeAll [("a.txt", content)]) "a.txt" = readable (some content.toByteArray) := by
  have hpath : projectPath "a.txt" = .ok "a.txt" := by decide
  have hfile : (emptyTools.disk.writeAll [("a.txt", content)]).fileAt (full "a.txt") = some content.toByteArray := by
    simp [Disk.fileAt, Disk.writeAll, Disk.write, emptyTools]
  rw [freshRead, hpath]
  exact congrArg readable hfile

/-- A file of 70000 characters and 210000 bytes is written and then read from
the cache; a fresh read refuses it. -/
theorem cached_read_not_fresh :
    ¬ ∀ (letter : Char → Bool) (calls : List ToolCall) (s s' : WorkspaceTools) (steps : List ToolStep)
        (out : Except ToolExc Unit), s.cache = [] → Performs Alone s (session letter calls) steps s' (.done out) →
      ∀ (path : String) (reading : List ToolStep) (s'' : WorkspaceTools) (r : Except ToolExc String),
        Performs Alone s' (read path) reading s'' (.done r) →
        r = freshRead s'.disk path ∨ ∃ e, r = .error e ∧ e.isFault = true := by
  intro hall
  obtain ⟨content, hlength, hsize⟩ : ∃ content : String, content.length = 70000 ∧ content.utf8ByteSize = 210000 :=
    ⟨euros 70000, length_euros _, utf8ByteSize_euros _⟩
  obtain ⟨steps, hsteps, _⟩ := performs_write (fun _ => false) (by rw [hlength]; decide : content.length ≤ MAX_FILE_BYTES)
    (by rw [hsize]; decide)
  obtain ⟨reading, hreading⟩ := @performs_cached content (emptyTools.disk.writeAll [("a.txt", content)]) 1
  have hfresh : freshRead (emptyTools.disk.writeAll [("a.txt", content)]) "a.txt"
      = .error (.value "File exceeds the source-size limit") := by
    rw [freshRead_written]
    refine if_pos ?_
    rw [String.size_toByteArray, hsize]
    decide
  rcases hall _ _ _ _ _ _ rfl hsteps "a.txt" _ _ _ hreading with h | ⟨e, h, _⟩
  · rw [hfresh] at h
    cases h
  · cases h

/-- A small file. -/
theorem cached_read_is_fresh_small : ∃ steps s' reading,
    Performs Alone emptyTools (session (fun _ => false) [.writeFiles [⟨"a.txt", euros 1⟩]]) steps s' (.done (.ok ())) ∧
    Performs Alone s' (read "a.txt") reading s' (.done (.ok (euros 1))) ∧
    ((Except.ok (euros 1) : Except ToolExc String) = freshRead s'.disk "a.txt" ∨
      ∃ e, (Except.ok (euros 1) : Except ToolExc String) = .error e ∧ e.isFault = true) := by
  have hsize : (euros 1).utf8ByteSize = 3 := utf8ByteSize_euros 1
  have hlength : (euros 1).length ≤ MAX_FILE_BYTES := by
    rw [length_euros]
    decide
  obtain ⟨steps, hsteps, huploads⟩ := performs_write (fun _ => false) hlength (by rw [hsize]; decide)
  obtain ⟨reading, hreading⟩ := @performs_cached (euros 1) (emptyTools.disk.writeAll [("a.txt", euros 1)]) 1
  have hordinary : ∀ st ∈ steps, Ordinary st := by
    intro st hst
    unfold Ordinary
    split
    · rename_i files hop _
      rw [huploads st hst files hop]
      refine ⟨fun f hf => ?_, fun f hf g hg _ => ?_⟩
      · rw [List.mem_singleton.mp hf, hsize]
        decide
      · rw [List.mem_singleton.mp hf, List.mem_singleton.mp hg]
    · trivial
  exact ⟨steps, _, reading, hsteps, hreading,
    cached_read_is_fresh (fun _ => false) [.writeFiles [⟨"a.txt", euros 1⟩]] rfl hsteps hordinary "a.txt" hreading⟩

end WebBuilder.Workspace
