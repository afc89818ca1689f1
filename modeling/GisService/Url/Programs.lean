import GisService.Data.Runs
import GisService.Url.IPv6Normal
import GisService.Url.Object
import Mathlib.Logic.Function.Basic

/-! Programs with many `Url` objects: when the objects parse and build does not
show, and the texts that they give away are read back as the same members. -/
namespace Url

open ByteString

/-- What a program does with its objects. -/
inductive Operation (V : Type) where
  | construct (x : V)
  | constructText (x : V) (url : Bytes)
  | assign (x y : V)
  | call (x : V) (call : Call)

section
variable {V : Type} [DecidableEq V] (normalizeIPv6 : Bytes → Except Error Bytes)

def Operation.run (objects : V → Object) : Operation V → Except Error Value × (V → Object)
  | .construct x => (.ok .unit, Function.update objects x {})
  | .constructText x url => (.ok .unit, Function.update objects x (.ofText url))
  | .assign x y => (.ok .unit, Function.update objects x ((objects x).assign (objects y)))
  | .call x c =>
      let after := c.method normalizeIPv6 (objects x)
      (after.1, Function.update objects x after.2)

def Operation.eager (meanings : V → Meaning) : Operation V → Except Error Value × (V → Meaning)
  | .construct x => (.ok .unit, Function.update meanings x (.ok {}))
  | .constructText x url => (.ok .unit, Function.update meanings x (parseUrl normalizeIPv6 url))
  | .assign x y => (.ok .unit, Function.update meanings x (meanings y))
  | .call x c =>
      let after := c.eager normalizeIPv6 (meanings x)
      (after.1, Function.update meanings x after.2)

/-- An operation and what it returns or throws. -/
abbrev Label (V : Type) := Operation V × Except Error Value

def LazyStep (objects : V → Object) (label : Label V) (objects' : V → Object) : Prop :=
  label.1.run normalizeIPv6 objects = (label.2, objects')

def EagerStep (meanings : V → Meaning) (label : Label V) (meanings' : V → Meaning) : Prop :=
  label.1.eager normalizeIPv6 meanings = (label.2, meanings')

end

section
variable {V : Type} [DecidableEq V] {normalizeIPv6 : Bytes → Except Error Bytes}
  {objects objects' : V → Object} {labels : List (Label V)}

theorem Object.Valid.ofText (url : Bytes) : (Object.ofText url).Valid := ⟨nofun, nofun⟩

theorem Object.Valid.initial : ({} : Object).Valid where
  built _ := ⟨rfl, rfl⟩
  version _ := by
    show -128 ≤ (-1 : Int) ∧ (-1 : Int) < 128
    decide

/-- A copy stands for the same, although it is not given all members. -/
theorem Object.agrees_assign (o : Object) {url : Object} (hValid : url.Valid) :
    (o.assign url).Valid ∧ (o.assign url).meaning normalizeIPv6 = url.meaning normalizeIPv6 := by
  cases hParse : url.parse with
  | true =>
      refine ⟨⟨fun hBuilt => ?_, fun _ => ?_⟩, by simp [assign, meaning, hParse]⟩
      · have hUrl : url.built = true := hBuilt
        simpa [assign, hParse, hUrl] using hValid.built hUrl
      · simpa [assign, hParse] using hValid.version hParse
  | false =>
      refine ⟨⟨fun hBuilt => ?_, fun hParsed => ?_⟩, by simp [assign, meaning, hParse]⟩
      · exact absurd (hValid.built hBuilt).1 (by simp [hParse])
      · exact absurd (hParse.symm.trans hParsed) (by decide)

def meanings (normalizeIPv6 : Bytes → Except Error Bytes) (objects : V → Object) : V → Meaning :=
  fun x => (objects x).meaning normalizeIPv6

/-- A new object under one name changes what that name stands for, and no other. -/
theorem meanings_update (x : V) (o : Object) :
    meanings normalizeIPv6 (Function.update objects x o) =
      Function.update (meanings normalizeIPv6 objects) x (o.meaning normalizeIPv6) := by
  funext y
  by_cases hSame : y = x
  · subst hSame
    simp [meanings]
  · simp [meanings, hSame]

/-- Objects stay valid if the new one is. -/
theorem valid_update {x : V} {o : Object} (hValid : ∀ x, (objects x).Valid) (hNew : o.Valid) :
    ∀ y, (Function.update objects x o y).Valid := by
  intro y
  by_cases hSame : y = x
  · subst hSame
    simpa using hNew
  · simpa [hSame] using hValid y

/-- One operation on the objects is the same operation on what they stand for. -/
theorem LazyStep.eager {label : Label V} (hStep : LazyStep normalizeIPv6 objects label objects')
    (hValid : ∀ x, (objects x).Valid) :
    (∀ x, (objects' x).Valid) ∧
      EagerStep normalizeIPv6 (meanings normalizeIPv6 objects) label
        (meanings normalizeIPv6 objects') := by
  obtain ⟨op, answer⟩ := label
  cases op with
  | construct x =>
      obtain ⟨rfl, rfl⟩ := Prod.mk.inj hStep
      refine ⟨valid_update hValid .initial, Prod.ext rfl ?_⟩
      rw [meanings_update]
      rfl
  | constructText x url =>
      obtain ⟨rfl, rfl⟩ := Prod.mk.inj hStep
      refine ⟨valid_update hValid (.ofText url), Prod.ext rfl ?_⟩
      rw [meanings_update]
      rfl
  | assign x y =>
      obtain ⟨rfl, rfl⟩ := Prod.mk.inj hStep
      obtain ⟨hCopy, hMeaning⟩ := (objects x).agrees_assign (hValid y)
      refine ⟨valid_update hValid hCopy, Prod.ext rfl ?_⟩
      rw [meanings_update, hMeaning]
      rfl
  | call x call =>
      obtain ⟨rfl, rfl⟩ := Prod.mk.inj hStep
      obtain ⟨hAnswer, hAfter, hMeaning⟩ := call.agrees (hValid x)
      refine ⟨valid_update hValid hAfter, Prod.ext hAnswer.symm ?_⟩
      rw [meanings_update, hMeaning]
      rfl

/-- A step that throws leaves all values as they were. -/
theorem EagerStep.error {label : Label V} {values values' : V → Meaning} {e : Error}
    (hStep : EagerStep normalizeIPv6 values label values') (hError : label.2 = .error e) :
    values' = values := by
  obtain ⟨op, answer⟩ := label
  obtain rfl : answer = .error e := hError
  cases op with
  | construct x => cases (Prod.mk.inj hStep).1
  | constructText x url => cases (Prod.mk.inj hStep).1
  | assign x y => cases (Prod.mk.inj hStep).1
  | call x call =>
      obtain ⟨hAnswer, rfl⟩ := Prod.mk.inj hStep
      rw [call.eager_error hAnswer, Function.update_eq_self]

/-- A run of lazy objects is one of the values that they stand for. -/
theorem eager_of_run (run : Runs (LazyStep normalizeIPv6) (fun _ : V => {}) labels objects) :
    Runs (EagerStep normalizeIPv6) (fun _ => .ok {}) labels (meanings normalizeIPv6 objects) ∧
      ∀ x, (objects x).Valid := by
  obtain ⟨values, hRun, hValid, rfl⟩ : ∃ values,
      Runs (EagerStep normalizeIPv6) (fun _ => .ok {}) (labels.filterMap some) values ∧
        (∀ x, (objects x).Valid) ∧ values = meanings normalizeIPv6 objects := by
    refine run.simulate
      (fun objects values => (∀ x, (objects x).Valid) ∧ values = meanings normalizeIPv6 objects)
      some ⟨fun _ => .initial, rfl⟩ (by simp) ?_
    rintro objects values label m objects' hImage ⟨hValid, rfl⟩ hStep
    obtain rfl := Option.some.inj hImage
    obtain ⟨hValid', hEager⟩ := hStep.eager hValid
    exact ⟨_, hEager, hValid', rfl⟩
  rw [List.filterMap_some] at hRun
  exact ⟨hRun, hValid⟩

/-- Arguments without an address in brackets, and with user info that needs no
escapes. -/
def Call.Plain : Call → Prop
  | .setStr url => (91 : UInt8) ∉ url
  | .setUserInfo s => isChars 0x05 s = true
  | .setHost h ipV => h = [] ∨ isIPv4 h = true ∨
      (ipV = 0 ∨ ipV = 4 ∨ ipV = 6) ∧ isIPv6 h = false
  | _ => True

def Operation.Plain : Operation V → Prop
  | .constructText _ url => (91 : UInt8) ∉ url
  | .call _ c => c.Plain
  | _ => True

/-- Arguments that leave well-formed members, as far as that is not checked. -/
def Call.Keeps (normalizeIPv6 : Bytes → Except Error Bytes) : Call → Prop
  | .setStr url => ∀ u, parseUrl normalizeIPv6 url = .ok u → u.WellFormed normalizeIPv6
  | .setUserInfo s => isChars 0x05 s = true
  | .setHost h ipV => ∀ new, newHost normalizeIPv6 h ipV = .ok new → new.1 ≠ [] →
      HostForm normalizeIPv6 (int8 new.2) new.1
  | _ => True

def Operation.Keeps (normalizeIPv6 : Bytes → Except Error Bytes) : Operation V → Prop
  | .constructText _ url => (Call.setStr url).Keeps normalizeIPv6
  | .call _ c => c.Keeps normalizeIPv6
  | _ => True

def Meaning.WellFormed (normalizeIPv6 : Bytes → Except Error Bytes) (meaning : Meaning) : Prop :=
  ∀ u, meaning = .ok u → u.WellFormed normalizeIPv6

variable {u : Url} {meaning : Meaning}

theorem wellFormed_empty : ({} : Url).WellFormed normalizeIPv6 :=
  ⟨.inl rfl, rfl, fun hHost => absurd rfl hHost, .inl rfl, rfl⟩

/-- Without its port a Url reads back as before. -/
theorem wellFormed_dropDefaultPort (h : u.WellFormed normalizeIPv6) :
    (dropDefaultPort u).WellFormed normalizeIPv6 := by
  unfold dropDefaultPort
  split
  · exact ⟨h.scheme, h.user, h.host, .inl rfl, h.path⟩
  · exact h

theorem require_eq_ok {valid : Bool} {what text : Bytes} (h : require valid what text = .ok ()) :
    valid = true := by
  unfold require at h
  split at h
  · assumption
  · cases h

/-- A host that is set by name or by an address of version 4. -/
theorem newHost_form {h : Bytes} {ipV : UInt8} {new : Bytes × UInt8}
    (hPlain : (Call.setHost h ipV).Plain) (hNew : newHost normalizeIPv6 h ipV = .ok new)
    (hHost : new.1 ≠ []) : HostForm normalizeIPv6 (int8 new.2) new.1 := by
  unfold newHost at hNew
  split at hNew
  · cases hNew
    exact absurd rfl hHost
  · next hNonempty =>
      split at hNew
      · next hAddress =>
          obtain ⟨-, -, hNew⟩ := bind_eq_ok.mp hNew
          cases hNew
          have hFour : int8 4 = 4 := int8_of_lt (by decide)
          rw [hFour]
          exact .ipv4 hAddress
      · next hOther =>
          obtain ⟨hVersion, hName⟩ : (ipV = 0 ∨ ipV = 4 ∨ ipV = 6) ∧ isIPv6 h = false := by
            simpa [Call.Plain, hNonempty, hOther] using hPlain
          rw [if_neg (by tauto), if_neg (by simp [hName])] at hNew
          obtain ⟨_, hReg, hNew⟩ := bind_eq_ok.mp hNew
          cases hNew
          have hZero : int8 0 = 0 := int8_of_lt (by decide)
          rw [hZero]
          refine .regName (all_toLower isChar_lower (require_eq_ok hReg)) ?_ (toLower_toLower h)
          rw [isIPv4_toLower]
          simpa using hOther

/-- A setter keeps members well formed if it writes such members where its check
has passed. -/
theorem wellFormed_writing {check : Except Error Unit} {write : Url → Except Error Url}
    (h : meaning.WellFormed normalizeIPv6)
    (hWrite : ∀ u u', u.WellFormed normalizeIPv6 → check = .ok () → write u = .ok u' →
      u'.WellFormed normalizeIPv6) :
    (writing check write meaning).2.WellFormed normalizeIPv6 := by
  cases check with
  | error e => exact h
  | ok _ =>
      cases meaning with
      | error e => exact h
      | ok u =>
          dsimp only [writing, onMembers]
          cases hWritten : write u with
          | error e => exact h
          | ok u' =>
              rintro _ ⟨⟩
              exact hWrite u u' (h u rfl) rfl hWritten

/-- Reading changes no member. -/
theorem wellFormed_reading {read : Url → Except Error Value}
    (h : meaning.WellFormed normalizeIPv6) :
    (reading read meaning).2.WellFormed normalizeIPv6 := by
  cases meaning with
  | error e => exact h
  | ok u =>
      dsimp only [reading, onMembers]
      cases hRead : read u with
      | error e => exact h
      | ok value => exact h

/-- Calls whose user info and hosts read back keep the members well-formed. -/
theorem Call.wellFormed {call : Call} (hKeeps : call.Keeps normalizeIPv6)
    (h : meaning.WellFormed normalizeIPv6) :
    (call.eager normalizeIPv6 meaning).2.WellFormed normalizeIPv6 := by
  cases call with
  | scheme | userInfo | host | ipVersion | port | path | query | queryAt | fragment | str =>
      simp only [eager]
      exact wellFormed_reading h
  | setStr url => exact hKeeps
  | clear =>
      rintro u ⟨⟩
      exact wellFormed_empty
  | setScheme s =>
      simp only [eager]
      refine wellFormed_writing h ?_
      rintro u _ hOld hCheck ⟨⟩
      split
      · exact hOld
      · refine wellFormed_dropDefaultPort ⟨.inr ⟨?_, toLower_toLower s⟩, hOld.user, hOld.host,
          hOld.port, hOld.path⟩
        exact isScheme_toLower (require_eq_ok hCheck)
  | setUserInfo s =>
      simp only [eager]
      refine wellFormed_writing h ?_
      rintro u _ hOld hCheck ⟨⟩
      exact ⟨hOld.scheme, hKeeps, hOld.host, hOld.port, hOld.path⟩
  | setHost name ipV =>
      simp only [eager]
      refine wellFormed_writing h ?_
      intro u u' hOld hCheck hWrite
      obtain ⟨new, hNew, hWrite⟩ := bind_eq_ok.mp hWrite
      cases hWrite
      exact ⟨hOld.scheme, hOld.user, hKeeps new hNew, hOld.port, hOld.path⟩
  | setPort p =>
      simp only [eager]
      refine wellFormed_writing h ?_
      rintro u _ hOld hCheck ⟨⟩
      exact wellFormed_dropDefaultPort
        ⟨hOld.scheme, hOld.user, hOld.host, .inr (require_eq_ok hCheck), hOld.path⟩
  | setPath p =>
      simp only [eager]
      refine wellFormed_writing h ?_
      rintro u _ hOld hCheck ⟨⟩
      exact ⟨hOld.scheme, hOld.user, hOld.host, hOld.port, normalizePath_normalizePath p⟩
  | setQuery | addQuery | editQuery | setFragment =>
      simp only [eager]
      refine wellFormed_writing h ?_
      rintro u _ hOld hCheck ⟨⟩
      exact ⟨hOld.scheme, hOld.user, hOld.host, hOld.port, hOld.path⟩
  | editQueryAt i edit =>
      simp only [eager]
      refine wellFormed_writing h ?_
      intro u u' hOld hCheck hWrite
      obtain ⟨kv, -, hWrite⟩ := bind_eq_ok.mp hWrite
      cases hWrite
      exact ⟨hOld.scheme, hOld.user, hOld.host, hOld.port, hOld.path⟩

/-- What one operation keeps, whichever value it changes. -/
theorem EagerStep.wellFormed {label : Label V} {values values' : V → Meaning}
    (hStep : EagerStep normalizeIPv6 values label values')
    (hKeeps : label.1.Keeps normalizeIPv6)
    (h : ∀ x, (values x).WellFormed normalizeIPv6) :
    ∀ x, (values' x).WellFormed normalizeIPv6 := by
  have hUpdate : ∀ x (meaning : Meaning), meaning.WellFormed normalizeIPv6 →
      ∀ y, Meaning.WellFormed normalizeIPv6 (Function.update values x meaning y) := by
    intro x meaning hNew y
    by_cases hSame : y = x
    · subst hSame
      simpa using hNew
    · simpa [hSame] using h y
  obtain ⟨op, answer⟩ := label
  cases op with
  | construct x =>
      obtain ⟨-, rfl⟩ := Prod.mk.inj hStep
      refine hUpdate x _ ?_
      rintro u ⟨⟩
      exact wellFormed_empty
  | constructText x url =>
      obtain ⟨-, rfl⟩ := Prod.mk.inj hStep
      exact hUpdate x _ hKeeps
  | assign x y =>
      obtain ⟨-, rfl⟩ := Prod.mk.inj hStep
      exact hUpdate x _ (h y)
  | call x c =>
      obtain ⟨-, rfl⟩ := Prod.mk.inj hStep
      exact hUpdate x _ (Call.wellFormed hKeeps (h x))

/-- In a run of such operations the members are always well-formed. -/
theorem wellFormed_of_run
    (run : Runs (LazyStep normalizeIPv6) (fun _ : V => {}) labels objects)
    (hKeeps : ∀ label ∈ labels, label.1.Keeps normalizeIPv6) (x : V) :
    ((objects x).meaning normalizeIPv6).WellFormed normalizeIPv6 := by
  refine (eager_of_run run).1.invariant
    (fun values => ∀ x, (values x).WellFormed normalizeIPv6) hKeeps ?_ ?_ x
  · rintro x u ⟨⟩
    exact wellFormed_empty
  · intro values label values' hLabel h hStep
    exact hStep.wellFormed hLabel h

/-- The text of any object reads back, however the object came about. -/
theorem reads_back_of_run
    (run : Runs (LazyStep normalizeIPv6) (fun _ : V => {}) labels objects)
    (hKeeps : ∀ label ∈ labels, label.1.Keeps normalizeIPv6) (x : V) {text : Bytes}
    (hStr : (Call.str.method normalizeIPv6 (objects x)).1 = .ok (.text text))
    (hLength : text.length ≤ 8000) :
    ∃ u, (objects x).meaning normalizeIPv6 = .ok u ∧
      (Object.ofText text).meaning normalizeIPv6 = .ok u.canonical := by
  have hAnswer := (Call.str.agrees ((eager_of_run run).2 x)).answer.symm.trans hStr
  have hWellFormed := wellFormed_of_run run hKeeps x
  cases hMeaning : (objects x).meaning normalizeIPv6 with
  | error e =>
      rw [hMeaning] at hAnswer
      cases hAnswer
  | ok u =>
      rw [hMeaning] at hAnswer
      simp only [Call.eager, reading, onMembers] at hAnswer
      cases hBuild : buildUrl u with
      | error e =>
          rw [hBuild] at hAnswer
          cases hAnswer
      | ok built =>
          rw [hBuild] at hAnswer
          cases hAnswer
          exact ⟨u, rfl, (parseUrl_of_length hLength).trans
            (assemble_scan_build (hWellFormed u hMeaning) hBuild)⟩

/-- Texts without brackets and user info without escapes are read back. -/
theorem Operation.Plain.keeps {W : Type} {op : Operation W} (h : op.Plain) :
    op.Keeps normalizeIPv6 := by
  cases op with
  | construct | assign => trivial
  | constructText x url => exact fun u hParse => wellFormed_of_parse h hParse
  | call x c =>
      cases c with
      | setStr url => exact fun u hParse => wellFormed_of_parse h hParse
      | setUserInfo s => exact h
      | setHost name ipV => exact fun new hNew hHost => newHost_form h hNew hHost
      | _ => trivial

/-- Whatever a program has done with its objects, a text that one of them gives away
makes an object with the same members, but for a port and a version that no text
shows. -/
theorem str_reads_back
    (run : Runs (LazyStep normalizeIPv6) (fun _ : V => {}) labels objects)
    (hPlain : ∀ label ∈ labels, label.1.Plain) (x : V) {text : Bytes}
    (hStr : (Call.str.method normalizeIPv6 (objects x)).1 = .ok (.text text))
    (hLength : text.length ≤ 8000) :
    ∃ u, (objects x).meaning normalizeIPv6 = .ok u ∧
      (Object.ofText text).meaning normalizeIPv6 = .ok u.canonical :=
  reads_back_of_run run (fun label hLabel => (hPlain label hLabel).keeps) x hStr hLength

/-- The code that the objects call, where it stays inside of its arrays. -/
def Normalizes (normalizeIPv6 : Bytes → Except Error Bytes) : Prop :=
  ∀ text answer, Url.normalizeIPv6 text = some answer → normalizeIPv6 text = answer

/-- Hosts may be addresses of version 6, but of the zero address only `::`. -/
def Operation.PlainHost : Operation V → Prop
  | .call x (.setHost h ipV) => (Operation.call x (.setHost h ipV)).Plain ∨
      (ipV = 0 ∨ ipV = 4 ∨ ipV = 6) ∧
        (h = ascii "::" ∨ ¬ AddressText.Denotes Dotted h (List.replicate 8 0) none)
  | op => op.Plain

/-- An address that is set is kept in its normal form. -/
theorem newHost_ipv6 (hNormalizes : Normalizes normalizeIPv6) {h : Bytes} {ipV : UInt8}
    {new : Bytes × UInt8} (hVersion : ipV = 0 ∨ ipV = 4 ∨ ipV = 6)
    (hZero : h = ascii "::" ∨ ¬ AddressText.Denotes Dotted h (List.replicate 8 0) none)
    (hNew : newHost normalizeIPv6 h ipV = .ok new) (hHost : new.1 ≠ []) :
    HostForm normalizeIPv6 (int8 new.2) new.1 := by
  by_cases hPlain : (Call.setHost h ipV).Plain
  · exact newHost_form hPlain hNew hHost
  · simp only [Call.Plain, hVersion, true_and, not_or, Bool.not_eq_true, Bool.not_eq_false]
      at hPlain
    obtain ⟨hNonempty, hOther, hText⟩ := hPlain
    rw [newHost, if_neg hNonempty, if_neg (by simp [hOther]), if_neg (by tauto), if_pos hText]
      at hNew
    obtain ⟨_, hValid, hNew⟩ := bind_eq_ok.mp hNew
    obtain ⟨normal, hNormal, hNew⟩ := bind_eq_ok.mp hNew
    cases hNew
    have hSix : int8 6 = 6 := int8_of_lt (by decide)
    rw [hSix]
    rcases hZero with rfl | hZero
    · have hKept : normalizeIPv6 (ascii "::") = .ok (ascii "::") :=
        hNormalizes _ _ normalizeIPv6_null
      obtain rfl := Except.ok.inj (hKept.symm.trans hNormal)
      exact .ipv6 hText hKept
    · obtain ⟨hLength, fields, tail, hDenotes⟩ := denotes_of_valid (require_eq_ok hValid)
      have hKept := normalizeIPv6_canonicalIPv6 hDenotes hLength hZero
      have hCanonical := hNormalizes _ _ (normalizeIPv6_of_denotes hDenotes (by omega)
        (ne_null_of_not_zero hDenotes hZero hDenotes))
      obtain rfl := Except.ok.inj (hCanonical.symm.trans hNormal)
      exact .ipv6 (isIPv6_of_normal hKept) (hNormalizes _ _ hKept)

/-- Hosts of version 6 that `normalize_IPv6` keeps are read back. -/
theorem Operation.PlainHost.keeps {W : Type} (hNormalizes : Normalizes normalizeIPv6)
    {op : Operation W} (h : op.PlainHost) : op.Keeps normalizeIPv6 := by
  cases op with
  | construct | constructText | assign => exact Operation.Plain.keeps h
  | call x c =>
      cases c with
      | setHost name ipV =>
          rcases h with hPlain | ⟨hVersion, hZero⟩
          · exact Operation.Plain.keeps hPlain
          · exact fun new hNew hHost => newHost_ipv6 hNormalizes hVersion hZero hNew hHost
      | _ => exact Operation.Plain.keeps h

/-- The text of any object reads back, within the length limit, also in a program that
sets addresses of version 6 as hosts. -/
theorem str_reads_back_ipv6 (hNormalizes : Normalizes normalizeIPv6)
    (run : Runs (LazyStep normalizeIPv6) (fun _ : V => {}) labels objects)
    (hPlain : ∀ label ∈ labels, label.1.PlainHost) (x : V) {text : Bytes}
    (hStr : (Call.str.method normalizeIPv6 (objects x)).1 = .ok (.text text))
    (hLength : text.length ≤ 8000) :
    ∃ u, (objects x).meaning normalizeIPv6 = .ok u ∧
      (Object.ofText text).meaning normalizeIPv6 = .ok u.canonical :=
  reads_back_of_run run (fun label hLabel => (hPlain label hLabel).keeps hNormalizes) x hStr
    hLength

/-- The run of a list of operations. -/
def runAll (normalizeIPv6 : Bytes → Except Error Bytes) (objects : V → Object) :
    List (Operation V) → List (Label V) × (V → Object)
  | [] => ([], objects)
  | op :: rest =>
      let after := op.run normalizeIPv6 objects
      let more := runAll normalizeIPv6 after.2 rest
      ((op, after.1) :: more.1, more.2)

/-- The operations of a list, one after the other, are a run. -/
theorem runs_runAll (objects : V → Object) (ops : List (Operation V)) :
    Runs (LazyStep normalizeIPv6) objects (runAll normalizeIPv6 objects ops).1
      (runAll normalizeIPv6 objects ops).2 := by
  induction ops generalizing objects with
  | nil => exact .nil
  | cons op rest ih =>
      have hFirst : LazyStep normalizeIPv6 objects (op, (op.run normalizeIPv6 objects).1)
        (op.run normalizeIPv6 objects).2 := rfl
      exact (Runs.single hFirst).trans (ih _)

theorem mem_of_mem_runAll {objects : V → Object} {ops : List (Operation V)} {label : Label V}
    (h : label ∈ (runAll normalizeIPv6 objects ops).1) : label.1 ∈ ops := by
  induction ops generalizing objects with
  | nil => cases h
  | cons op rest ih =>
      rcases List.mem_cons.mp h with rfl | h
      · exact List.mem_cons_self
      · exact List.mem_cons_of_mem _ (ih h)

end

/-- An object is made of a text and changed, and a copy of it gives its text away. -/
def sampleOperations : List (Operation Bool) := [
  .constructText false (ascii "HTTP://h:80/a/../b?k"),
  .call false (.setPort (ascii "8x")),
  .call false (.setPort (ascii "81")),
  .assign true false,
  .call true .str]

def sampleRun : List (Label Bool) × (Bool → Object) :=
  runAll .ok (fun _ => {}) sampleOperations

theorem plain_sampleRun : ∀ label ∈ sampleRun.1, label.1.Plain := by
  intro label hMem
  have hPlain : ∀ op ∈ sampleOperations, op.Plain := by
    have hText : (91 : UInt8) ∉ ascii "HTTP://h:80/a/../b?k" := by decide +kernel
    simp [sampleOperations, Operation.Plain, Call.Plain, hText]
  exact hPlain label.1 (mem_of_mem_runAll hMem)

theorem str_reads_back_sample :
    ∃ u, (sampleRun.2 true).meaning .ok = .ok u ∧
      (Object.ofText (ascii "http://h:81/b?k")).meaning .ok = .ok u.canonical :=
  str_reads_back (runs_runAll _ sampleOperations) plain_sampleRun true (by decide +kernel)
    (by decide +kernel)

/-- The code itself, and an error where it leaves its arrays. -/
def sampleNormalize (text : Bytes) : Except Error Bytes :=
  (Url.normalizeIPv6 text).getD (.error (.parse []))

theorem normalizes_sample : Normalizes sampleNormalize := by
  intro text answer h
  rw [sampleNormalize, h]
  rfl

def addressOperations : List (Operation Bool) := [
  .constructText false (ascii "http://h/"),
  .call false (.setHost (ascii "2001:DB8:0:0:1:0:0:1") 6),
  .call false .str]

def addressRun : List (Label Bool) × (Bool → Object) :=
  runAll sampleNormalize (fun _ => {}) addressOperations

theorem plain_addressRun : ∀ label ∈ addressRun.1, label.1.PlainHost := by
  intro label hMem
  have hText : (91 : UInt8) ∉ ascii "http://h/" := by decide +kernel
  have hPlain : ∀ op ∈ addressOperations, op.PlainHost := by
    simp only [addressOperations, List.forall_mem_cons]
    exact ⟨hText, .inr ⟨.inr (.inr rfl), .inr sample_not_zero⟩, trivial, nofun⟩
  exact hPlain label.1 (mem_of_mem_runAll hMem)

theorem str_reads_back_ipv6_sample :
    ∃ u, (addressRun.2 false).meaning sampleNormalize = .ok u ∧
      (Object.ofText (ascii "http://[2001:db8::1:0:0:1]/")).meaning sampleNormalize =
        .ok u.canonical :=
  str_reads_back_ipv6 normalizes_sample (runs_runAll _ addressOperations) plain_addressRun false
    (by decide +kernel) (by decide +kernel)

end Url
