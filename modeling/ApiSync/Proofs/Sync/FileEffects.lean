import ApiSync.Proofs.Failing
import ApiSync.Proofs.Files
import ApiSync.Proofs.Path
import ApiSync.Sync.Run
/-!
# What a run does to the files

A run that stops before its report is written leaves the tree as it is, and what it writes after
that goes to two places: the document, and the coverage report.  The document is there, because it
has been read, and the coverage report is only written where no file is in the way, so neither
write takes another file with it.
-/

namespace ApiSync
namespace Sync
namespace Workspace

variable {s : Workspace} {config : Config}

theorem read?_of_load {files : Files} {path : String} {document : Fields}
    (h : Document.load files path = .ok document) : ∃ text, files.read? path = some text := by
  rw [Document.load] at h
  split at h
  · cases h
  · cases hread : files.read? path with
    | none => rw [hread] at h; cases h
    | some text => exact ⟨text, rfl⟩

theorem read?_of_gather {handlers : Handler.Scan} {inputs : Inputs}
    (h : s.gather config handlers = .ok inputs) :
    ∃ text, s.files.read? (s.place config.documentFile) = some text := by
  rw [gather] at h
  split at h
  · cases h
  · obtain ⟨document, hload, -⟩ := bind_eq_ok.mp h
    exact read?_of_load hload

/-- A run stops without a trace, or it has read the document and comes to its end with a report
on it. -/
theorem run_cases (s : Workspace) (config : Config) :
    (∃ f, (s.run config).result = .error f ∧ (s.run config).files = s.files) ∨
      ∃ report events, (∃ text, s.files.read? (s.place config.documentFile) = some text) ∧
        s.run config = s.finish config report events := by
  unfold run
  dsimp only
  split
  · next f _ => exact .inl ⟨f, rfl, rfl⟩
  · next inputs hgather =>
    split
    · next f _ => exact .inl ⟨f, rfl, rfl⟩
    · exact .inr ⟨_, _, read?_of_gather hgather, rfl⟩

/-! ## The end of a run -/

section Finish

variable {report : Report} {events : List Event} {text : String}

/-- Besides the document, writing it changes nothing. -/
theorem read?_writeDocument (h : s.files.read? (s.place config.documentFile) = some text)
    (report : Report) (path : String) :
    (s.writeDocument config report).read? path =
      if writesDocument config report = true ∧
          Path.names path = Path.names (s.place config.documentFile)
      then some (Yaml.dump (.map report.document)) else s.files.read? path := by
  rw [writeDocument]
  split
  · next hw =>
    rw [Files.read?_write (Files.clear_of_read? h)]
    simp [hw]
  · next hw => rw [if_neg fun hc => hw hc.1]

/-- What the end of a run gives, and the files that it leaves: the document, and the coverage
report if one is wanted and can be written. -/
theorem finish_cases (s : Workspace) (config : Config) (report : Report) (events : List Event) :
    ((s.finish config report events).files = s.writeDocument config report ∨
      ∃ path text, s.coveragePath? config = some path ∧
        (s.writeDocument config report).canWrite path = true ∧
        (s.finish config report events).files =
          (s.writeDocument config report).write path text) ∧
      ((s.finish config report events).result =
          .ok ⟨report, writesDocument config report, s.coveragePath? config⟩ ∨
        (s.finish config report events).result = .error .unwritable) := by
  rw [finish]
  split
  · exact ⟨.inl rfl, .inl rfl⟩
  · next path hpath =>
    split
    · next hcan => exact ⟨.inr ⟨path, _, hpath, hcan, rfl⟩, .inl rfl⟩
    · exact ⟨.inl rfl, .inr rfl⟩

/-- Away from the coverage report the end of a run does what writing the document does. -/
theorem read?_finish {path : String}
    (h : ∀ c, s.coveragePath? config = some c → Path.names path ≠ Path.names c) :
    (s.finish config report events).files.read? path =
      (s.writeDocument config report).read? path := by
  rcases (finish_cases s config report events).1 with hfiles | ⟨c, text, hc, hcan, hfiles⟩
  · rw [hfiles]
  · rw [hfiles, Files.read?_write (Files.clear_of_canWrite hcan), if_neg (h c hc)]

end Finish

/-! ## Whole runs -/

/-- Handlers, their blocks or the document stand in the way of a run. -/
def refuses : Failure → Bool
  | .block _ | .mismatch _ | .document _ => true
  | _ => false

/-- What a run may do to the files. -/
structure FileEffects (s : Workspace) (config : Config) : Prop where
  refused : ∀ f, (s.run config).result = .error f → refuses f = true →
    (s.run config).files = s.files
  check : ∀ w, (s.run config).result = .ok w → config.mode = .check →
    w.wroteDocument = false ∧
    (s.run config).files.read? (s.place config.documentFile) =
      s.files.read? (s.place config.documentFile)
  fix : ∀ w, (s.run config).result = .ok w → config.mode = .fix →
    (w.wroteDocument = true ↔
      w.report.operations.changed = true ∨ w.report.components.sync.changed = true) ∧
    (s.run config).files.read? (s.place config.documentFile) =
      if w.report.operations.changed = true ∨ w.report.components.sync.changed = true
      then some (Yaml.dump (.map w.report.document))
      else s.files.read? (s.place config.documentFile)
  others : ∀ path, Path.names path ≠ Path.names (s.place config.documentFile) →
    (∀ c, s.coveragePath? config = some c → Path.names path ≠ Path.names c) →
    (s.run config).files.read? path = s.files.read? path

theorem names_coveragePath_ne
    (h : ∀ c, s.coveragePath? config = some c → c ≠ s.place config.documentFile) :
    ∀ c, s.coveragePath? config = some c →
      Path.names (s.place config.documentFile) ≠ Path.names c := by
  intro c hc
  have hplace : ∃ path, c = Path.resolve s.directory path := by
    rw [coveragePath?] at hc
    split at hc
    · cases hc
    · cases hc
    · next path _ _ => exact ⟨path, (Option.some.inj hc).symm⟩
  obtain ⟨path, rfl⟩ := hplace
  exact Path.names_resolve_ne (h _ hc).symm

/-- What a run that comes to its end does to the document. -/
theorem read?_document_of_finish (report : Report) (events : List Event) {text : String}
    (hread : s.files.read? (s.place config.documentFile) = some text)
    (h : ∀ c, s.coveragePath? config = some c → c ≠ s.place config.documentFile) :
    (s.finish config report events).files.read? (s.place config.documentFile) =
      if writesDocument config report = true then some (Yaml.dump (.map report.document))
      else s.files.read? (s.place config.documentFile) := by
  rw [read?_finish (names_coveragePath_ne h), read?_writeDocument hread]
  simp

section Example

def pagesSource : String :=
"class Pages:
    @uri_mapping('/x')
    def show(self):
        pass
"

/-- A handler, and a document that is still empty. -/
def undocumented : Workspace :=
  ⟨.dir [("handlers", .dir [("pages.py", .file pagesSource)]), ("swagger.yaml", .file "")], "/",
    .zero, fun _ => ⟨0, 0⟩⟩

/-- A fix with a coverage report beside the document. -/
def fixing : Config :=
  { Config.default with
    documentFile := "swagger.yaml"
    handlersRoot := "handlers"
    mode := .fix
    coverageReport := some "coverage.json" }

def pagesDocument : String :=
"paths:
  /x:
    get:
      responses:
        \"200\":
          description: OK
"

end Example

end Workspace
end Sync
end ApiSync
