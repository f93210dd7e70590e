/-
  Elogind.Basic.EnvLine

  What the reader of environment files makes of a line.

  `Reads w v` says that the text `w`, written after the equals sign of a line,
  is read back as the value `v` and that the parser is at the start of a line
  again afterwards.  A text has this property for some value when it stays on
  its line, and a file of such lines is read line by line.
-/

import Elogind.Basic.EnvFile

namespace Elogind

open List

-- for what is checked for each byte
set_option maxRecDepth 2000

open Byte

/-- A byte that can stand anywhere in a key. -/
def isKeyChar (c : UInt8) : Bool := !isComment c && !isWhitespace c && c != equals

/-- A line `k=w`. -/
def envLine (k w : Bytes) : Bytes := k ++ equals :: w ++ [newline]

namespace EnvParser

/-- The parser is at the start of a line. -/
def Clean (p : EnvParser) : Prop := p.state = .preKey ∧ p.key = [] ∧ p.value = none

/-- The parser has read `k=` from the start of a line. -/
def atValue (k : Bytes) : EnvParser where
  state := .preValue
  key := k
  value := none
  lastKeyWhitespace := none
  lastValueWhitespace := none

theorem init_clean : init.Clean := ⟨rfl, rfl, rfl⟩

/-! ## Keys -/

theorem run_keyChars {p : EnvParser} {k : Bytes} (hs : p.state = .key)
    (hlast : p.lastKeyWhitespace = none) (hk : ∀ c ∈ k, isKeyChar c = true) :
    p.run k = ({ p with key := p.key ++ k }, []) := by
  induction k generalizing p with
  | nil => simp [run]
  | cons c k ih =>
      have hc := hk c mem_cons_self
      simp only [isKeyChar, Bool.and_eq_true, Bool.not_eq_true', bne_iff_ne, ne_eq] at hc
      obtain ⟨⟨_, hws⟩, heq⟩ := hc
      have hnl : isNewline c = false := by
        cases hn : isNewline c with
        | false => rfl
        | true => simp [isWhitespace_of_isNewline hn] at hws
      have hstep : p.step c = ({ p with key := p.key ++ [c] }, []) := by
        simp [step, hs, hnl, heq, hws, hlast]
      have htail := ih (p := { p with key := p.key ++ [c] }) hs hlast
        fun d hd => hk d (mem_cons_of_mem c hd)
      simp [run, hstep, htail]

/-- Reading a key and the equals sign. -/
theorem run_key {p : EnvParser} {k : Bytes} (hp : p.Clean) (hne : k ≠ [])
    (hk : ∀ c ∈ k, isKeyChar c = true) : p.run (k ++ [equals]) = (atValue k, []) := by
  obtain ⟨hs, hkey, hval⟩ := hp
  cases k with
  | nil => exact absurd rfl hne
  | cons c k =>
      have hc := hk c mem_cons_self
      simp only [isKeyChar, Bool.and_eq_true, Bool.not_eq_true', bne_iff_ne, ne_eq] at hc
      obtain ⟨⟨hcom, hws⟩, _⟩ := hc
      have hstep : p.step c = ({ p with state := .key, lastKeyWhitespace := none, key := [c] }, []) := by
        simp [step, hs, hcom, hws, hkey]
      have htail := run_keyChars (p := { p with state := .key, lastKeyWhitespace := none, key := [c] })
        (k := k) rfl rfl fun d hd => hk d (mem_cons_of_mem c hd)
      have hequals : isNewline equals = false := by decide
      simp only [cons_append, run, hstep, run_append, htail, append_nil,
        nil_append]
      simp [step, hequals, atValue, hval]

end EnvParser

open EnvParser

/-- Written after `k=` and followed by a newline, `w` is read as the value `v`
    of `k`, and the next line starts on its own. -/
def Reads (w : Bytes) (v : Option Bytes) : Prop :=
  ∀ k, ∃ p, (atValue k).run (w ++ [newline]) = (p, [{ key := k, value := v }]) ∧ p.Clean

/-! ## Texts that stay on their line -/

/-- Written after the equals sign of a line, the text completes no assignment,
    and at its end neither a quote nor an escape is open: the newline after it
    ends the line. -/
def staysOnLine (w : Bytes) : Bool :=
  ((atValue []).run w).2.isEmpty &&
    (((atValue []).run w).1.state == .preValue || ((atValue []).run w).1.state == .value)

/-- The value that is read from a text on a line of its own. -/
def readBack (w : Bytes) : Option Bytes := lookup [] ((atValue []).run (w ++ [newline])).2

namespace EnvParser

/-- The key has been read. -/
def HasKey (p : EnvParser) : Prop :=
  p.state ≠ .preKey ∧ p.state ≠ .key ∧ p.state ≠ .comment ∧ p.state ≠ .commentEscape

def withKey (p : EnvParser) (k : Bytes) : EnvParser := { p with key := k }

/-- Within a value the parser neither looks at the key nor changes it. -/
theorem step_hasKey {p : EnvParser} (hp : p.HasKey) {c : UInt8} (h : (p.step c).2 = [])
    (k : Bytes) :
    (p.withKey k).step c = ((p.step c).1.withKey k, []) ∧
      (p.step c).1.lastKeyWhitespace = p.lastKeyWhitespace ∧ (p.step c).1.HasKey := by
  obtain ⟨h₁, h₂, h₃, h₄⟩ := hp
  unfold step at h ⊢
  cases hs : p.state <;> simp only [hs, withKey] at h ⊢ <;> first | contradiction | skip
  all_goals
    repeat' split at h
    all_goals simp_all [HasKey, appendValue]

theorem run_hasKey {p : EnvParser} (hp : p.HasKey) {w : Bytes} (h : (p.run w).2 = [])
    (k : Bytes) :
    (p.withKey k).run w = ((p.run w).1.withKey k, []) ∧
      (p.run w).1.lastKeyWhitespace = p.lastKeyWhitespace := by
  induction w generalizing p with
  | nil => exact ⟨rfl, rfl⟩
  | cons c w ih =>
      simp only [run, append_eq_nil_iff] at h
      obtain ⟨hstep, hlast, hkey⟩ := step_hasKey hp h.1 k
      obtain ⟨hrun, hlast'⟩ := ih hkey h.2
      refine ⟨?_, ?_⟩
      · simp only [run, hstep, hrun, append_nil]
      · simp only [run, hlast', hlast]

/-- A newline outside of quotes and escapes ends the line. -/
theorem step_newline {p : EnvParser} (hs : p.state = .preValue ∨ p.state = .value) :
    p.step newline = (p.reset, [p.assignment]) := by
  have hn : isNewline newline = true := by decide
  rcases hs with hs | hs <;> simp [step, hs, hn]

end EnvParser

/-- A text that stays on its line is read as one value, whatever the key. -/
theorem run_atValue_of_staysOnLine {w : Bytes} (h : staysOnLine w = true) (k : Bytes) :
    (atValue k).run (w ++ [newline]) =
      ((((atValue []).run w).1.withKey k).reset,
        [{ key := k, value := ((atValue []).run w).1.assignment.value }]) := by
  simp only [staysOnLine, Bool.and_eq_true, Bool.or_eq_true, beq_iff_eq, List.isEmpty_iff] at h
  obtain ⟨hnone, hstate⟩ := h
  obtain ⟨hrun, hlast⟩ := run_hasKey (p := atValue []) (by simp [HasKey, atValue]) hnone k
  have hrun' : (atValue k).run w = (((atValue []).run w).1.withKey k, []) := hrun
  have hkeyEq : (((atValue []).run w).1.withKey k).assignment.key = k := by
    have hnone' : ((atValue []).run w).1.lastKeyWhitespace = none := hlast
    simp only [assignment, withKey, hnone', chomp]
  have hass : (((atValue []).run w).1.withKey k).assignment =
      { key := k, value := ((atValue []).run w).1.assignment.value } := by
    rw [Assignment.mk.injEq]
    exact ⟨hkeyEq, rfl⟩
  have hstep : (((atValue []).run w).1.withKey k).step newline = _ := step_newline hstate
  rw [run_append, hrun']
  simp only [run_singleton, hstep, hass, List.nil_append]

theorem readBack_eq_assignment {w : Bytes} (h : staysOnLine w = true) :
    readBack w = ((atValue []).run w).1.assignment.value := by
  simp [readBack, run_atValue_of_staysOnLine h, lookup]

theorem reads_of_staysOnLine {w : Bytes} (h : staysOnLine w = true) : Reads w (readBack w) := by
  intro k
  exact ⟨_, by rw [run_atValue_of_staysOnLine h k, readBack_eq_assignment h], ⟨rfl, rfl, rfl⟩⟩

/-! ## UTF-8 -/

namespace EnvParser

/-- The value so far, with the backslash that may still become a part of it. -/
def pending (p : EnvParser) : Bytes :=
  p.value.getD [] ++ if p.state = .doubleQuoteValueEscape then [backslash] else []

/-- The text `w` has been read since the equals sign. -/
structure Reading (p : EnvParser) (w : Bytes) : Prop where
  hasKey : p.HasKey
  drops : DropsAscii w p.pending
  last : p.state ≠ .value → p.lastValueWhitespace = none
  tail : ∀ n, p.lastValueWhitespace = some n → ∀ c ∈ (p.value.getD []).drop n, c < 0x80

theorem ascii_of_isWhitespace {c : UInt8} (h : isWhitespace c = true) : c < 0x80 := by
  have hall : ∀ c, isWhitespace c = true → c < 0x80 := by decide
  exact hall c h

theorem ascii_of_isNewline {c : UInt8} (h : isNewline c = true) : c < 0x80 :=
  ascii_of_isWhitespace (isWhitespace_of_isNewline h)

/-- A byte becomes a part of the value or is dropped; in double quotes it can
    also replace the backslash before it. -/
theorem step_pending {p : EnvParser} (hp : p.HasKey) {c : UInt8} (h : (p.step c).2 = []) :
    (p.step c).1.pending = p.pending ++ [c] ∨ (c < 0x80 ∧ (p.step c).1.pending = p.pending) ∨
      ∃ v, p.pending = v ++ [backslash] ∧
        ((p.step c).1.pending = v ++ [c] ∨ c < 0x80 ∧ (p.step c).1.pending = v) := by
  have hws := @ascii_of_isWhitespace c
  have hnl := @ascii_of_isNewline c
  have hascii : singleQuote < 0x80 ∧ doubleQuote < 0x80 ∧ backslash < 0x80 ∧ newline < 0x80 := by
    decide
  obtain ⟨h₁, h₂, h₃, h₄⟩ := hp
  unfold step at h ⊢
  cases hs : p.state <;> simp only [hs] at h ⊢ <;> first | contradiction | skip
  all_goals
    repeat' split at h
    all_goals simp_all [pending, appendValue]

/-- Only an unquoted value has trailing white space to remember. -/
theorem step_last {p : EnvParser} (hp : p.HasKey) {c : UInt8} (h : (p.step c).2 = [])
    (hlast : p.state ≠ .value → p.lastValueWhitespace = none) :
    (p.step c).1.state ≠ .value → (p.step c).1.lastValueWhitespace = none := by
  obtain ⟨h₁, h₂, h₃, h₄⟩ := hp
  unfold step at h ⊢
  cases hs : p.state <;> simp only [hs] at h ⊢ <;> first | contradiction | skip
  all_goals
    repeat' split at h
    all_goals simp_all [appendValue]

/-- What is remembered as trailing white space is ASCII. -/
theorem step_tail {p : EnvParser} (hp : p.HasKey) {c : UInt8} (h : (p.step c).2 = [])
    (hlast : p.state ≠ .value → p.lastValueWhitespace = none)
    (htail : ∀ n, p.lastValueWhitespace = some n → ∀ d ∈ (p.value.getD []).drop n, d < 0x80) :
    ∀ n, (p.step c).1.lastValueWhitespace = some n →
      ∀ d ∈ ((p.step c).1.value.getD []).drop n, d < 0x80 := by
  by_cases hs : p.state = .value
  · have hws := @ascii_of_isWhitespace c
    by_cases hnl : isNewline c = true
    · simp [step, hs, hnl] at h
    have hnl' : isNewline c = false := by simpa using hnl
    by_cases hb : c = backslash
    · subst hb
      simp [step, hs, hnl']
    -- the run of white space starts here, goes on or ends
    simp only [step, hs, hnl', hb, Bool.false_eq_true, if_false, appendValue, Option.getD_some]
    intro n hn d hd
    split at hn
    · cases hn
    rename_i hc
    have hsplit : d ∈ (p.value.getD []).drop n ∨ d = c := by
      rw [drop_append] at hd
      rcases mem_append.mp hd with hd | hd
      · exact .inl hd
      · exact .inr (mem_singleton.mp (mem_of_mem_drop hd))
    rcases hsplit with hd | rfl
    · split at hn
      · cases hn
        simp at hd
      · exact htail n hn d hd
    · exact hws (by simpa using hc)
  · obtain ⟨h₁, h₂, h₃, h₄⟩ := hp
    have hkept : (p.step c).1.lastValueWhitespace = none := by
      unfold step at h ⊢
      cases hst : p.state <;> simp only [hst] at h ⊢ <;> first | contradiction | skip
      all_goals
        repeat' split at h
        all_goals simp_all [appendValue]
    simp [hkept]

theorem step_reading {p : EnvParser} {w : Bytes} (hp : p.Reading w) {c : UInt8}
    (h : (p.step c).2 = []) : (p.step c).1.Reading (w ++ [c]) := by
  refine ⟨(step_hasKey hp.hasKey h p.key).2.2, ?_, step_last hp.hasKey h hp.last,
    step_tail hp.hasKey h hp.last hp.tail⟩
  have hbackslash : backslash < 0x80 := by decide
  have hkeep : DropsAscii (w ++ [c]) (p.pending ++ [c]) := hp.drops.append (.refl [c])
  rcases step_pending hp.hasKey h with heq | ⟨hc, heq⟩ | ⟨v, hv, heq | ⟨hc, heq⟩⟩
  · rwa [heq]
  · rw [heq]
    simpa using hp.drops.append (.drop hc .nil)
  · rw [heq]
    refine hkeep.trans ?_
    rw [hv, append_assoc]
    exact (DropsAscii.refl v).append (.drop hbackslash (.refl [c]))
  · rw [heq]
    refine hkeep.trans ?_
    rw [hv, append_assoc]
    simpa using (DropsAscii.refl v).append (.drop hbackslash (.drop hc .nil))

theorem run_reading {p : EnvParser} {w v : Bytes} (hp : p.Reading w) (h : (p.run v).2 = []) :
    (p.run v).1.Reading (w ++ v) := by
  induction v generalizing p w with
  | nil => simpa [run] using hp
  | cons c v ih =>
      simp only [run, append_eq_nil_iff] at h
      simpa [run] using ih (step_reading hp h.1) h.2

end EnvParser

/-- The value that is read from valid UTF-8 is valid UTF-8. -/
theorem readBack_utf8IsValid {w : Bytes} (h : staysOnLine w = true) (hw : utf8IsValid w = true) :
    (readBack w).all utf8IsValid = true := by
  have hreading : (atValue []).Reading [] :=
    ⟨by simp [HasKey, atValue], .nil, fun _ => rfl, by simp [atValue]⟩
  rw [readBack_eq_assignment h]
  have hparts := h
  simp only [staysOnLine, Bool.and_eq_true, Bool.or_eq_true, beq_iff_eq, List.isEmpty_iff] at hparts
  obtain ⟨hnone, hstate⟩ := hparts
  have hrun := run_reading hreading hnone
  generalize ((atValue []).run w).1 = p at hrun hstate
  obtain ⟨_, hdrops, _, htail⟩ := hrun
  have hp : p.pending = p.value.getD [] := by
    rcases hstate with hs | hs <;> simp [pending, hs]
  rw [hp, List.nil_append] at hdrops
  unfold assignment
  cases hv : p.value with
  | none => simp
  | some v =>
      rw [hv, Option.getD_some] at hdrops htail
      have hvalid : utf8IsValid v = true := utf8IsValid_dropsAscii hdrops hw
      split
      · cases hl : p.lastValueWhitespace with
        | none => simpa [chomp] using hvalid
        | some n =>
            have htake : DropsAscii v (v.take n) := by
              have := (DropsAscii.refl (v.take n)).append (DropsAscii.ascii (htail n hl))
              simpa using this
            simpa [chomp] using utf8IsValid_dropsAscii htake hvalid
      · simpa using hvalid

/-! ## Files -/

/-- A line that a file can have: its key, and the text of its value if the line
    is written. -/
structure FileEntry where
  key : Bytes
  text : Option Bytes

namespace FileEntry

def line (e : FileEntry) : Bytes :=
  match e.text with
  | none => []
  | some w => envLine e.key w

/-- The assignments that are read from the line. -/
def assignments (e : FileEntry) : List Assignment :=
  match e.text with
  | none => []
  | some w => [{ key := e.key, value := readBack w }]

/-- The value that is read from the line. -/
def value (e : FileEntry) : Option Bytes := e.text.bind readBack

/-- The line stays on its own. -/
structure Good (e : FileEntry) : Prop where
  key_ne_nil : e.key ≠ []
  key_chars : ∀ c ∈ e.key, isKeyChar c = true
  stays : ∀ w, e.text = some w → staysOnLine w = true

end FileEntry

theorem run_line {p : EnvParser} (hp : p.Clean) {e : FileEntry} (he : e.Good) :
    ∃ q, p.run e.line = (q, e.assignments) ∧ q.Clean := by
  unfold FileEntry.line FileEntry.assignments
  cases ht : e.text with
  | none => exact ⟨p, rfl, hp⟩
  | some w =>
      obtain ⟨q, hq, hclean⟩ := reads_of_staysOnLine (he.stays w ht) e.key
      refine ⟨q, ?_, hclean⟩
      have hsplit : envLine e.key w = (e.key ++ [equals]) ++ (w ++ [newline]) := by
        simp [envLine]
      simp only [hsplit]
      rw [run_append, run_key hp he.key_ne_nil he.key_chars]
      simp only [hq, nil_append]

/-- A file of such lines is read line by line. -/
theorem run_lines {p : EnvParser} (hp : p.Clean) {es : List FileEntry} (hes : ∀ e ∈ es, e.Good) :
    ∃ q, p.run (es.flatMap FileEntry.line) = (q, es.flatMap FileEntry.assignments) ∧ q.Clean := by
  induction es generalizing p with
  | nil => exact ⟨p, by simp [run], hp⟩
  | cons e es ih =>
      obtain ⟨p₁, h₁, hclean₁⟩ := run_line hp (hes e mem_cons_self)
      obtain ⟨q, h₂, hclean⟩ := ih hclean₁ fun e' he' => hes e' (mem_cons_of_mem e he')
      refine ⟨q, ?_, hclean⟩
      rw [flatMap_cons, run_append, h₁]
      simp only [h₂, flatMap_cons]

theorem mem_keys_assignments {es : List FileEntry} {k : Bytes}
    (h : k ∈ (es.flatMap FileEntry.assignments).map Assignment.key) :
    k ∈ es.map FileEntry.key := by
  obtain ⟨a, ha, rfl⟩ := mem_map.mp h
  obtain ⟨e, he, hae⟩ := mem_flatMap.mp ha
  unfold FileEntry.assignments at hae
  split at hae
  · cases hae
  · rw [mem_singleton.mp hae]
    exact mem_map_of_mem he

/-- With one line for each key, the value of a key is read from its line. -/
theorem lookup_assignments {es : List FileEntry} (hnodup : (es.map FileEntry.key).Nodup)
    {e : FileEntry} (he : e ∈ es) :
    lookup e.key (es.flatMap FileEntry.assignments) = e.value := by
  induction es with
  | nil => cases he
  | cons e' es ih =>
      rw [map_cons, nodup_cons] at hnodup
      rw [flatMap_cons, lookup_append]
      rcases mem_cons.mp he with rfl | he
      · -- no later line has the key
        rw [if_neg fun h => hnodup.1 (mem_keys_assignments h)]
        unfold FileEntry.assignments FileEntry.value
        cases e.text <;> simp [lookup]
      · have hne : e'.key ≠ e.key := fun heq =>
          hnodup.1 (heq ▸ mem_map_of_mem he)
        split
        · exact ih hnodup.2 he
        · rename_i hnot
          have hnil : lookup e.key (es.flatMap FileEntry.assignments) = none :=
            lookup_eq_none_of_not_mem hnot
          rw [← ih hnodup.2 he, hnil]
          unfold FileEntry.assignments
          cases e'.text <;> simp [lookup, hne]

/-- The assignments of a file of valid UTF-8 are valid UTF-8. -/
theorem assignments_utf8IsValid {es : List FileEntry} (hes : ∀ e ∈ es, e.Good)
    (hutf8 : ∀ e ∈ es, utf8IsValid e.key = true ∧ ∀ w, e.text = some w → utf8IsValid w = true) :
    (es.flatMap FileEntry.assignments).all Assignment.utf8IsValid = true := by
  rw [all_eq_true]
  intro a ha
  obtain ⟨e, he, hae⟩ := mem_flatMap.mp ha
  unfold FileEntry.assignments at hae
  split at hae
  · cases hae
  · rename_i w hw
    rw [mem_singleton.mp hae, Assignment.utf8IsValid, Bool.and_eq_true]
    exact ⟨(hutf8 e he).1, readBack_utf8IsValid ((hes e he).stays w hw) ((hutf8 e he).2 w hw)⟩

/-- After a head that leaves no trace, a file is read line by line. -/
theorem parseEnvFile_lines {head : Bytes} (hhead : init.run head = (init, []))
    {es : List FileEntry} (hes : ∀ e ∈ es, e.Good)
    (hutf8 : ∀ e ∈ es, utf8IsValid e.key = true ∧ ∀ w, e.text = some w → utf8IsValid w = true) :
    parseEnvFile (head ++ es.flatMap FileEntry.line) = .ok (es.flatMap FileEntry.assignments) := by
  obtain ⟨q, hrun, hclean, _⟩ := run_lines init_clean hes
  have hparse : parseEnvFileInternal (head ++ es.flatMap FileEntry.line) =
      es.flatMap FileEntry.assignments := by
    rw [parseEnvFileInternal, run_append, hhead]
    simp only [hrun, finish, hclean, nil_append, append_nil]
  simp only [parseEnvFile, hparse, assignments_utf8IsValid hes hutf8, if_true]

end Elogind
