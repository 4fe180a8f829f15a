import WcagAudit.Config.Toml

namespace WcagAudit

/-- A setting has the value that is given for it, or the default if none is given. -/
def GivenOr (default : α) (Gives : Toml → α → Prop) : Option Toml → α → Prop
  | none, a => a = default
  | some x, a => Gives x a

theorem setting?_eq_some {default a : α} {read : Toml → Option α} {Gives : Toml → α → Prop}
    (h : ∀ x a, read x = some a ↔ Gives x a) {given : Option Toml} :
    setting? default read given = some a ↔ GivenOr default Gives given a := by
  cases given with
  | none => exact Option.some_inj.trans eq_comm
  | some x => exact h x a

namespace Toml

inductive GivesText : Toml → String → Prop
  | string (s : String) : GivesText (.string s) s

inductive GivesTexts : Toml → List String → Prop
  | array (texts : List String) : GivesTexts (.array (texts.map .string)) texts

inductive GivesCase : Toml → String → Prop
  | string (name : String) : GivesCase (.string name) name
  | array (origin : Origin) (name : String) : GivesCase (.table origin [(name, .array [])]) name
  | table (origin inner : Origin) (name : String) :
    GivesCase (.table origin [(name, .table inner [])]) name

theorem text?_eq_some {x : Toml} {s : String} : x.text? = some s ↔ GivesText x s := by
  constructor
  · intro h
    cases x <;> cases h
    exact .string s
  · rintro ⟨⟩
    rfl

theorem mapM_text? {items : List Toml} {texts : List String} :
    items.mapM text? = some texts ↔ items = texts.map .string := by
  induction items generalizing texts with
  | nil => cases texts <;> simp
  | cons x items ih =>
    rw [List.mapM_cons]
    constructor
    · intro h
      obtain ⟨s, first, h⟩ := Option.bind_eq_some_iff.1 h
      obtain ⟨rest, later, h⟩ := Option.bind_eq_some_iff.1 h
      cases h
      cases text?_eq_some.1 first
      rw [ih.1 later]
      rfl
    · intro h
      cases texts with
      | nil => cases h
      | cons s texts =>
        obtain ⟨rfl, later⟩ := List.cons_eq_cons.1 h
        rw [ih.2 later]
        rfl

theorem texts?_eq_some {x : Toml} {texts : List String} : x.texts? = some texts ↔ GivesTexts x texts := by
  constructor
  · intro h
    cases x with
    | array items =>
      rw [mapM_text?.1 h]
      exact .array texts
    | _ => cases h
  · rintro ⟨⟩
    exact mapM_text?.2 rfl

theorem isEmpty_iff {x : Toml} : x.isEmpty ↔ x = .array [] ∨ ∃ origin, x = .table origin [] := by
  cases x <;> simp [isEmpty]

theorem case?_eq_some {x : Toml} {s : String} : x.case? = some s ↔ GivesCase x s := by
  constructor
  · intro h
    unfold case? at h
    split at h
    · cases h
      exact .string _
    · simp only [Option.ite_none_right_eq_some, isEmpty_iff] at h
      obtain ⟨rfl | ⟨inner, rfl⟩, h⟩ := h <;> cases h
      · exact .array _ _
      · exact .table _ inner _
    · cases h
  · rintro ⟨⟩ <;> rfl

/-- What can hold settings. A date holds none, but is not refused. -/
def isGroup : Toml → Bool
  | .string _ | .scalar => false
  | _ => true

def setting (name : String) (position : Nat) : Toml → Option Toml
  | .table _ entries => entries.lookup name
  | .array items => items[position]?
  | .tables items => items[position]?.map (.table .header)
  | _ => none

theorem byPosition_pair (items : List Toml) (first second : String) :
    settings?.byPosition [first, second] items = [items[0]?, items[1]?] := by
  match items with
  | [] => rfl
  | [_] => rfl
  | _ :: _ :: _ => simp [settings?.byPosition]

theorem settings?_pair (x : Toml) (first second : String) :
    x.settings? [first, second] =
      if x.isGroup then some [x.setting first 0, x.setting second 1] else none := by
  cases x with
  | array items => exact congrArg some (byPosition_pair items first second)
  | tables items => simp [settings?, byPosition_pair, setting, isGroup]
  | _ => rfl

end Toml

theorem find?_name_eq_some {all : List α} {name : α → String}
    (named : ∀ a, all.find? (name · == name a) = some a) {s : String} {a : α} :
    all.find? (name · == s) = some a ↔ s = name a := by
  constructor
  · intro h
    have named : (name a == s) = true := List.find?_some (p := (name · == s)) h
    exact (eq_of_beq named).symm
  · rintro rfl
    exact named a

theorem Level.ofName?_eq_some {s : String} {l : Level} : ofName? s = some l ↔ s = l.name :=
  find?_name_eq_some fun l => by cases l <;> rfl

theorem LogFormat.ofName?_eq_some {s : String} {f : LogFormat} : ofName? s = some f ↔ s = f.name :=
  find?_name_eq_some fun f => by cases f <;> rfl

theorem case?_bind_eq_some {ofName? : String → Option α} {name : α → String}
    (h : ∀ s a, ofName? s = some a ↔ s = name a) (x : Toml) (a : α) :
    x.case?.bind ofName? = some a ↔ x.GivesCase (name a) := by
  simp [Option.bind_eq_some_iff, Toml.case?_eq_some, h]

structure Selection.Given (x : Toml) (s : Selection) : Prop where
  group : x.isGroup
  extensions : GivenOr Config.default.scan.extensions Toml.GivesTexts (x.setting "extensions" 0)
    s.extensions
  exclude : GivenOr Config.default.scan.exclude Toml.GivesTexts (x.setting "exclude" 1) s.exclude

structure Log.Given (x : Toml) (l : Log) : Prop where
  group : x.isGroup
  level : GivenOr Config.default.log.level Toml.GivesText (x.setting "level" 0) l.level
  format : GivenOr Config.default.log.format (fun x (f : LogFormat) => x.GivesCase f.name)
    (x.setting "format" 1) l.format

structure Config.Given (root : Toml.Entries) (c : Config) : Prop where
  level : GivenOr default.level (fun x (l : Level) => x.GivesCase l.name) (root.lookup "level") c.level
  scan : GivenOr default.scan Selection.Given (root.lookup "scan") c.scan
  log : GivenOr default.log Log.Given (root.lookup "log") c.log

theorem Selection.ofToml?_eq (x : Toml) :
    ofToml? x = if x.isGroup then
      (setting? Config.default.scan.extensions Toml.texts? (x.setting "extensions" 0)).bind
        fun extensions =>
          (setting? Config.default.scan.exclude Toml.texts? (x.setting "exclude" 1)).bind
            fun exclude => some { extensions, exclude }
    else none := by
  unfold ofToml?
  rw [Toml.settings?_pair]
  split <;> rfl

theorem Selection.ofToml?_eq_some {x : Toml} {s : Selection} : ofToml? x = some s ↔ Given x s := by
  have texts : ∀ x a, Toml.texts? x = some a ↔ Toml.GivesTexts x a := fun _ _ => Toml.texts?_eq_some
  simp only [ofToml?_eq, Option.ite_none_right_eq_some, Option.bind_eq_some_iff,
    setting?_eq_some texts]
  constructor
  · rintro ⟨group, _, first, _, second, ⟨⟩⟩
    exact ⟨group, first, second⟩
  · rintro ⟨group, first, second⟩
    exact ⟨group, _, first, _, second, rfl⟩

theorem Log.ofToml?_eq (x : Toml) :
    ofToml? x = if x.isGroup then
      (setting? Config.default.log.level Toml.text? (x.setting "level" 0)).bind fun level =>
        (setting? Config.default.log.format (fun y => y.case?.bind LogFormat.ofName?)
          (x.setting "format" 1)).bind fun format => some { level, format }
    else none := by
  unfold ofToml?
  rw [Toml.settings?_pair]
  split <;> rfl

theorem Log.ofToml?_eq_some {x : Toml} {l : Log} : ofToml? x = some l ↔ Given x l := by
  have text : ∀ x a, Toml.text? x = some a ↔ Toml.GivesText x a := fun _ _ => Toml.text?_eq_some
  have format := case?_bind_eq_some fun s f => LogFormat.ofName?_eq_some (s := s) (f := f)
  simp only [ofToml?_eq, Option.ite_none_right_eq_some, Option.bind_eq_some_iff,
    setting?_eq_some text, setting?_eq_some format]
  constructor
  · rintro ⟨group, _, first, _, second, ⟨⟩⟩
    exact ⟨group, first, second⟩
  · rintro ⟨group, first, second⟩
    exact ⟨group, _, first, _, second, rfl⟩

namespace Config

theorem ofEntries?_eq_some {root : Toml.Entries} {c : Config} :
    ofEntries? root = some c ↔ Given root c := by
  unfold ofEntries?
  have level := case?_bind_eq_some fun s l => Level.ofName?_eq_some (s := s) (l := l)
  have scan : ∀ x s, Selection.ofToml? x = some s ↔ Selection.Given x s :=
    fun _ _ => Selection.ofToml?_eq_some
  have log : ∀ x l, Log.ofToml? x = some l ↔ Log.Given x l := fun _ _ => Log.ofToml?_eq_some
  constructor
  · intro h
    obtain ⟨_, first, h⟩ := Option.bind_eq_some_iff.1 h
    obtain ⟨_, second, h⟩ := Option.bind_eq_some_iff.1 h
    obtain ⟨_, third, h⟩ := Option.bind_eq_some_iff.1 h
    cases h
    exact ⟨(setting?_eq_some level).1 first, (setting?_eq_some scan).1 second,
      (setting?_eq_some log).1 third⟩
  · rintro ⟨first, second, third⟩
    exact Option.bind_eq_some_iff.2 ⟨_, (setting?_eq_some level).2 first,
      Option.bind_eq_some_iff.2 ⟨_, (setting?_eq_some scan).2 second,
        Option.bind_eq_some_iff.2 ⟨_, (setting?_eq_some log).2 third, rfl⟩⟩⟩

def Deserialises (t : List Char) (c : Config) : Prop :=
  ∃ root, Toml.parse? t = some root ∧ Given root c

theorem ofTomlText?_eq_some {t : List Char} {c : Config} : ofTomlText? t = some c ↔ Deserialises t c := by
  simp only [ofTomlText?, Option.bind_eq_some_iff, ofEntries?_eq_some, Deserialises]

end Config
end WcagAudit
