import WcagAudit.Command.Run
import WcagAudit.Proofs.Config.Settings
import WcagAudit.Proofs.FileSystem.Locate

namespace WcagAudit.Config

variable {fs : FileSystem} {p : Path} {n : Node} {c : Config} {e : Failure}

inductive Usable : Node → Config → Prop
  | file {t : List Char} {c : Config} (given : Deserialises t c) (selects : c.scan.extensions ≠ []) :
    Usable (.file t.utf8Encode) c

/-- What cannot be loaded from `p`, and why. -/
inductive Unusable (p : Path) : Node → Failure → Prop
  | directory (entries : List (FileName × Node)) : Unusable p (.directory entries) (.io .isDirectory)
  | content {content : ByteArray} (h : ¬content.IsValidUTF8) :
    Unusable p (.file content) (.io .invalidText)
  | text {t : List Char} (h : ∀ c, ¬Deserialises t c) : Unusable p (.file t.utf8Encode) .toml
  | selection {t : List Char} {c : Config} (given : Deserialises t c) (h : c.scan.extensions = []) :
    Unusable p (.file t.utf8Encode) (.noExtensions p)

theorem usable_or_unusable (p : Path) (n : Node) : (∃ c, Usable n c) ∨ ∃ e, Unusable p n e := by
  cases n with
  | directory entries => exact .inr ⟨_, .directory entries⟩
  | file content =>
    by_cases valid : content.IsValidUTF8
    · obtain ⟨t, rfl⟩ := valid
      by_cases given : ∃ c, Deserialises t c
      · obtain ⟨c, given⟩ := given
        by_cases selects : c.scan.extensions = []
        · exact .inr ⟨_, .selection given selects⟩
        · exact .inl ⟨c, .file given selects⟩
      · exact .inr ⟨_, .text (not_exists.1 given)⟩
    · exact .inr ⟨_, .content valid⟩

theorem load_missing (h : ¬∃ n, fs.node p = .ok n) : load fs p = .ok default := by
  rw [load, if_neg (mt FileSystem.pathExists_iff.1 h)]

theorem load_file {content : ByteArray} (h : fs.node p = .ok (.file content)) :
    load fs p = match FileSystem.decode content with
      | .ok t => ofText p t
      | .error e => .error (.io e) := by
  rw [load, if_pos (FileSystem.pathExists_iff.2 ⟨_, h⟩), FileSystem.readText, h]
  rfl

theorem load_of_usable (h : fs.node p = .ok n) (usable : Usable n c) : load fs p = .ok c := by
  obtain ⟨given, selects⟩ := usable
  rw [load_file h, FileSystem.decode_utf8Encode]
  simp [ofText, ofTomlText?_eq_some.2 given, selects]

theorem load_of_unusable (h : fs.node p = .ok n) (unusable : Unusable p n e) :
    load fs p = .error e := by
  cases unusable with
  | directory entries =>
    rw [load, if_pos (FileSystem.pathExists_iff.2 ⟨_, h⟩), FileSystem.readText, h]
    rfl
  | content invalid => rw [load_file h, FileSystem.decode_of_not_isValidUTF8 invalid]
  | @text t h' =>
    have malformed : ofTomlText? t = none :=
      Option.eq_none_iff_forall_ne_some.2 fun c given => h' c (ofTomlText?_eq_some.1 given)
    rw [load_file h, FileSystem.decode_utf8Encode]
    simp [ofText, malformed]
  | selection given empty =>
    rw [load_file h, FileSystem.decode_utf8Encode]
    simp [ofText, ofTomlText?_eq_some.2 given, empty]

theorem load_eq_ok_iff (h : fs.node p = .ok n) : load fs p = .ok c ↔ Usable n c := by
  refine ⟨fun loaded => ?_, load_of_usable h⟩
  -- Either judgment tells what loading gives, so the one that is there is the one asked for.
  obtain ⟨c', usable⟩ | ⟨e, unusable⟩ := usable_or_unusable p n
  · cases (load_of_usable h usable).symm.trans loaded
    exact usable
  · cases (load_of_unusable h unusable).symm.trans loaded

theorem load_eq_error_iff (h : fs.node p = .ok n) : load fs p = .error e ↔ Unusable p n e := by
  refine ⟨fun failed => ?_, load_of_unusable h⟩
  obtain ⟨c, usable⟩ | ⟨e', unusable⟩ := usable_or_unusable p n
  · cases (load_of_usable h usable).symm.trans failed
  · cases (load_of_unusable h unusable).symm.trans failed
    exact unusable

theorem selects_of_load (h : load fs p = .ok c) : ∃ extension, c.scan.includesExtension extension := by
  have selects : c.scan.extensions ≠ [] := by
    by_cases here : ∃ n, fs.node p = .ok n
    · obtain ⟨n, here⟩ := here
      obtain ⟨-, selects⟩ := (load_eq_ok_iff here).1 h
      exact selects
    · cases (load_missing here).symm.trans h
      exact List.cons_ne_nil _ _
  obtain ⟨extension, rest, extensions⟩ := List.exists_cons_of_ne_nil selects
  exact ⟨extension.toList, by simp [Selection.includesExtension, extensions, sameAscii]⟩

theorem display_infix_message (p : Path) :
    p.display.toList <:+: (Failure.noExtensions p).message.toList := by
  have displayed (before after : String) :
      p.display.toList <:+: (before ++ p.display ++ after).toList := by
    rw [String.toList_append, String.toList_append]
    exact List.infix_append _ _ _
  exact displayed "Configuration error: " ": scan.extensions must list at least one extension"

theorem names_of_load {q : Path} (h : load fs p = .error (.noExtensions q)) :
    q = p ∧ p.display.toList <:+: (Failure.noExtensions q).message.toList := by
  by_cases here : ∃ n, fs.node p = .ok n
  · obtain ⟨n, here⟩ := here
    cases (load_eq_error_iff here).1 h
    exact ⟨rfl, display_infix_message p⟩
  · cases (load_missing here).symm.trans h

/-- Loading gives the default where there is nothing, below a file as elsewhere; otherwise it gives
what the document says with a default for each setting that it leaves out, if that selects
something, and else fails for the one reason there is. The files are the same afterwards. -/
theorem load_exactly_usable (fs : FileSystem) (p : Path) :
    ((¬∃ n, fs.node p = .ok n) → load fs p = .ok default) ∧
      (∀ q content rest, fs.node q = .ok (.file content) → p.bytes = q.bytes ++ Path.slash :: rest →
        load fs p = .ok default) ∧
      (∀ n, fs.node p = .ok n → (∀ c, load fs p = .ok c ↔ Usable n c) ∧
        ∀ e, load fs p = .error e ↔ Unusable p n e) ∧
      (∀ c, load fs p = .ok c → ∃ extension, c.scan.includesExtension extension) ∧
      (∀ q, load fs p = .error (.noExtensions q) →
        q = p ∧ p.display.toList <:+: (Failure.noExtensions q).message.toList) ∧
      ∀ stamp task,
        (∀ c, load fs p = .ok c →
          Command.runInvocation stamp fs ⟨p, task⟩ = Command.runTask stamp fs c task) ∧
        ∀ e, load fs p = .error e → (Command.runInvocation stamp fs ⟨p, task⟩).files = fs := by
  refine ⟨load_missing, fun q content rest file below => ?_, fun n here => ?_, fun c => selects_of_load,
    fun q => names_of_load, fun stamp task => ⟨fun c loaded => ?_, fun e failed => ?_⟩⟩
  · refine load_missing fun here => ?_
    have missing := FileSystem.not_pathExists_below file below
    exact Bool.false_ne_true (missing.symm.trans (FileSystem.pathExists_iff.2 here))
  · exact ⟨fun c => load_eq_ok_iff here, fun e => load_eq_error_iff here⟩
  · simp only [Command.runInvocation, loaded]
  · simp only [Command.runInvocation, failed]
    rfl

def shelf : FileSystem where
  root := .directory [
    (Utf8.ofString "md.toml", .file "[scan]\nextensions = [\"md\"]\n".toUTF8),
    (Utf8.ofString "none.toml", .file "[scan]\nextensions = []\n".toUTF8),
    (Utf8.ofString "level.toml", .file "level = \"ZZZ\"\n".toUTF8),
    (Utf8.ofString "torn.toml", .file ⟨#[0xff]⟩),
    (Utf8.ofString "docs", .directory [])]

theorem shelf_loaded :
    load shelf (.ofString "md.toml") = .ok { scan := { extensions := ["md"] } } ∧
      load shelf (.ofString "md.toml/x") = .ok default ∧
      load shelf (.ofString "none.toml") = .error (.noExtensions (.ofString "none.toml")) ∧
      load shelf (.ofString "level.toml") = .error .toml ∧
      load shelf (.ofString "torn.toml") = .error (.io .invalidText) ∧
      load shelf (.ofString "docs") = .error (.io .isDirectory) := by
  have md : ofTomlText? "[scan]\nextensions = [\"md\"]\n".toList =
      some { scan := { extensions := ["md"] } } := rfl
  have nothing : ofTomlText? "[scan]\nextensions = []\n".toList =
      some { scan := { extensions := [] } } := rfl
  have level : ofTomlText? "level = \"ZZZ\"\n".toList = none := rfl
  have torn : ¬ByteArray.IsValidUTF8 ⟨#[0xff]⟩ := by decide
  have here (p : Path) := (load_exactly_usable shelf p).2.2.1
  refine ⟨?_, ?_, ?_, ?_, ?_, ?_⟩
  · exact ((here _ _ rfl).1 _).2 (.file (ofTomlText?_eq_some.1 md) (List.cons_ne_nil _ _))
  · exact (load_exactly_usable shelf _).2.1 (.ofString "md.toml") _ (Utf8.ofString "x") rfl rfl
  · exact ((here _ _ rfl).2 _).2 (.selection (ofTomlText?_eq_some.1 nothing) rfl)
  · refine ((here _ _ rfl).2 _).2 (.text fun c given => ?_)
    cases level.symm.trans (ofTomlText?_eq_some.2 given)
  · exact ((here _ _ rfl).2 _).2 (.content torn)
  · exact ((here _ _ rfl).2 _).2 (.directory [])

end WcagAudit.Config
