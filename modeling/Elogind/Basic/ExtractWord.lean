/-
  Elogind.Basic.ExtractWord

  Taking texts apart into words: `extract_first_word` (extract-word.c) and `strv_split_full` (strv.c).

  A pointer into the text is what is left of the text from there on, or `none` for NULL.  Where the
  function fails, the place of the failure is left out.  There is enough memory.
-/

import Elogind.Basic.EscapeRoundTrip

namespace Elogind

open Byte Errno List

/-- `ExtractFlags` -/
structure ExtractFlags where
  relax : Bool := false
  cunescape : Bool := false
  unescapeRelax : Bool := false
  unescapeSeparators : Bool := false
  keepQuote : Bool := false
  unquote : Bool := false
  dontCoalesceSeparators : Bool := false
  retainEscape : Bool := false
  retainSeparators : Bool := false
  deriving DecidableEq, Repr

/-- What is written for the text after a backslash, and how long that text is. -/
def extractEscaped (seps : Bytes) (f : ExtractFlags) (c : UInt8) (p : Bytes) : Result (Bytes × Nat) :=
  if f.cunescape || f.unescapeSeparators then
    match (if f.cunescape then cunescapeOneFull false (c :: p) else .error EINVAL) with
    | .ok u => .ok (u.bytes, u.length)
    | .error _ =>
      if f.unescapeSeparators && (seps.contains c || c == backslash) then .ok ([c], 1)
      else if f.unescapeRelax then .ok ([backslash, c], 1)
      else .error EINVAL
  else .ok ([c], 1)

/-- The second loop of `extract_first_word`, within a word: the quote that is open, whether a backslash
    was just seen, how much of an escape is still to be passed over, and the word so far.  The inner loops
    take one character at a time, as the outer one does. -/
def extractLoop (seps : Bytes) (f : ExtractFlags) :
    Option UInt8 → Bool → Nat → Bytes → Bytes → Result (Option Bytes × Option Bytes)
  | quote, escaped, _, s, [] =>
    if escaped then
      if f.unescapeRelax && (quote.isNone || f.relax) then .ok (some (s ++ [backslash]), none)
      else if f.relax then .ok (some s, none)
      else .error EINVAL
    else if quote.isSome && !f.relax then .error EINVAL
    else .ok (some s, none)
  | quote, _, skip + 1, s, _ :: p => extractLoop seps f quote false skip s p
  | quote, true, 0, s, c :: p =>
    match extractEscaped seps f c p with
    | .error e => .error e
    | .ok (out, r) => extractLoop seps f quote false (r - 1) (s ++ out) p
  | some q, false, 0, s, c :: p =>
    if c = q then extractLoop seps f none false 0 (if f.unquote then s else s ++ [c]) p
    else if c = backslash ∧ !f.retainEscape then extractLoop seps f (some q) true 0 s p
    else extractLoop seps f (some q) false 0 (s ++ [c]) p
  | none, false, 0, s, c :: p =>
    if (c = singleQuote ∨ c = doubleQuote) ∧ (f.keepQuote || f.unquote) then
      extractLoop seps f (some c) false 0 (if f.unquote then s else s ++ [c]) p
    else if c = backslash ∧ !f.retainEscape then extractLoop seps f none true 0 s p
    else if seps.contains c then
      if f.dontCoalesceSeparators then .ok (some s, some (if f.retainSeparators then c :: p else p))
      else if f.retainSeparators then .ok (some s, some (c :: p))
      else
        match p.dropWhile seps.contains with
        | [] => .ok (some s, none)
        | rest => .ok (some s, some rest)
    else extractLoop seps f none false 0 (s ++ [c]) p

/-- `extract_first_word`: the word, or `none` where 0 is returned, and the pointer afterwards. -/
def extractFirstWord (seps : Bytes) (f : ExtractFlags) : Option Bytes → Result (Option Bytes × Option Bytes)
  | none => .ok (none, none)
  | some p =>
    if f.dontCoalesceSeparators then
      match p with
      | [] => .ok (some [], none)
      | c :: rest =>
        if seps.contains c then .ok (some [], some (if f.retainSeparators then c :: rest else rest))
        else extractLoop seps f none false 0 [] (c :: rest)
    else
      match p.dropWhile seps.contains with
      | [] => .ok (none, none)
      | rest => extractLoop seps f none false 0 [] rest

/-- The loop of `strv_split_full`, for at most so many rounds. -/
def strvSplitLoop (seps : Bytes) (f : ExtractFlags) : Nat → Option Bytes → Option (Result (List Bytes))
  | 0, _ => none
  | n + 1, p =>
    match extractFirstWord seps f p with
    | .error e => some (.error e)
    | .ok (none, _) => some (.ok [])
    | .ok (some w, p') => (strvSplitLoop seps f n p').map fun r => r.map (w :: ·)

/-- More rounds than words can be taken. -/
def extractRounds (p : Option Bytes) : Nat := p.elim 1 (·.length + 2)

/-- `strv_split_full` -/
def strvSplitFull (s seps : Bytes) (f : ExtractFlags) : Option (Result (List Bytes)) :=
  strvSplitLoop seps f (extractRounds (some s)) (some s)

/-! ## Progress -/

variable {seps : Bytes} {f : ExtractFlags}

/-- What is left of a text is a smaller end of it. -/
def LeftOf (p : Bytes) (p' : Option Bytes) : Prop := ∀ b, p' = some b → b <:+ p ∧ b.length < p.length

variable {p s w : Bytes} {p' : Option Bytes} {n : Nat} {ws : List Bytes}

theorem LeftOf.cons (h : LeftOf p p') (c : UInt8) : LeftOf (c :: p) p' :=
  fun b hb => ⟨(h b hb).1.trans (suffix_cons c p), Nat.lt_succ_of_lt (h b hb).2⟩

theorem leftOf_suffix {b : Bytes} (hb : b <:+ p) (c : UInt8) : LeftOf (c :: p) (some b) := by
  rintro _ ⟨⟩
  exact ⟨hb.trans (suffix_cons c p), Nat.lt_succ_of_le hb.length_le⟩

theorem extractLoop_progress (hf : f.retainSeparators = false) {quote : Option UInt8} {escaped : Bool}
    {skip : Nat} {w : Option Bytes} (h : extractLoop seps f quote escaped skip s p = .ok (w, p')) :
    LeftOf p p' := by
  induction p generalizing quote escaped skip s with
  | nil =>
    rintro b rfl
    unfold extractLoop at h
    split at h
    · split at h
      · cases h
      · split at h <;> cases h
    · split at h <;> cases h
  | cons c p ih =>
    cases skip with
    -- the rest of an escape sequence
    | succ skip => exact (ih (by rwa [extractLoop] at h)).cons c
    | zero =>
      cases escaped with
      | true =>
        rw [extractLoop] at h
        split at h
        · cases h
        · exact (ih h).cons c
      | false =>
        cases quote with
        | some q =>
          rw [extractLoop] at h
          split at h
          · exact (ih h).cons c
          · split at h <;> exact (ih h).cons c
        | none =>
          rw [extractLoop, hf] at h
          split at h
          · exact (ih h).cons c
          · split at h
            · exact (ih h).cons c
            · split at h
              · rw [if_neg Bool.false_ne_true, if_neg Bool.false_ne_true] at h
                split at h
                · cases h
                  exact leftOf_suffix suffix_rfl c
                · split at h
                  · cases h
                    exact nofun
                  · cases h
                    -- the word ends, and the separators behind it are skipped too
                    exact leftOf_suffix (dropWhile_suffix _) c
              · exact (ih h).cons c

/-- Every call that succeeds ends the text or gets on in it. -/
theorem extractFirstWord_progress (hf : f.retainSeparators = false) {w : Option Bytes}
    (h : extractFirstWord seps f (some p) = .ok (w, p')) : LeftOf p p' := by
  unfold extractFirstWord at h
  dsimp only at h
  split at h
  · split at h
    · cases h
      intro b hb
      cases hb
    · split at h
      · rw [hf, if_neg Bool.false_ne_true] at h
        cases h
        exact leftOf_suffix suffix_rfl _
      · exact extractLoop_progress hf h
  · have hdrop := dropWhile_suffix (l := p) seps.contains
    split at h
    · cases h
      intro b hb
      cases hb
    · intro b hb
      obtain ⟨hsuffix, hlt⟩ := extractLoop_progress hf h b hb
      exact ⟨hsuffix.trans hdrop, Nat.lt_of_lt_of_le hlt hdrop.length_le⟩

/-- Every loop over the words of a text ends. -/
theorem strvSplitLoop_ends (hf : f.retainSeparators = false) {p : Option Bytes}
    (hn : extractRounds p ≤ n) : ∃ r, strvSplitLoop seps f n p = some r := by
  induction n generalizing p with
  | zero => cases p <;> simp [extractRounds] at hn
  | succ n ih =>
    unfold strvSplitLoop
    split
    · exact ⟨_, rfl⟩
    · exact ⟨_, rfl⟩
    · next w p' heq =>
      -- the text gets shorter by a byte, or this was its last word
      have hp' : extractRounds p' ≤ n := by
        cases p with
        | none => cases heq
        | some p =>
          have hleft := extractFirstWord_progress hf heq
          cases p' with
          | none =>
            simp only [extractRounds, Option.elim_none, Option.elim_some] at hn ⊢
            omega
          | some b =>
            have := (hleft b rfl).2
            simp only [extractRounds, Option.elim_some] at hn ⊢
            omega
      obtain ⟨r, hr⟩ := ih hp'
      exact ⟨_, by rw [hr, Option.map_some]⟩

/-! ## Splitting without flags -/

/-- A byte that stands for itself. -/
def PlainIn (seps : Bytes) (c : UInt8) : Prop := c ∉ seps ∧ c ≠ backslash

/-- Without flags a plain byte becomes part of the word. -/
theorem extractLoop_plain {c : UInt8} (hc : PlainIn seps c) (s p : Bytes) :
    extractLoop seps {} none false 0 s (c :: p) = extractLoop seps {} none false 0 (s ++ [c]) p := by
  simp [extractLoop, hc.1, hc.2]

theorem extractLoop_word (hw : ∀ c ∈ w, PlainIn seps c) (s p : Bytes) :
    extractLoop seps {} none false 0 s (w ++ p) = extractLoop seps {} none false 0 (s ++ w) p := by
  induction w generalizing s with
  | nil => rw [nil_append, append_nil]
  | cons c w ih =>
    rw [cons_append, extractLoop_plain (hw c (.head _)), ih fun d hd => hw d (.tail _ hd)]
    rw [append_assoc, singleton_append]

theorem extractLoop_sep {c : UInt8} (hc : c ∈ seps) (hne : c ≠ backslash) (s p : Bytes) :
    extractLoop seps {} none false 0 s (c :: p) =
      .ok (some s, if p.dropWhile seps.contains = [] then none else some (p.dropWhile seps.contains)) := by
  have hmem : seps.contains c = true := by simpa using hc
  simp only [extractLoop, hne, hmem]
  cases p.dropWhile seps.contains <;> simp

/-- The word only grows. -/
theorem extractLoop_extends {escaped : Bool}
    (h : extractLoop seps {} none escaped 0 s p = .ok (some w, p')) :
    s <+: w ∧ (escaped = true → s.length < w.length) := by
  induction p generalizing escaped s with
  | nil =>
    cases escaped with
    | false => simp_all [extractLoop]
    | true => simp [extractLoop] at h
  | cons c p ih =>
    -- a byte that is added makes the word longer than what was read before
    have hgrow : ∀ d, extractLoop seps {} none false 0 (s ++ [d]) p = .ok (some w, p') →
        s <+: w ∧ s.length < w.length := by
      intro d hd
      have hpre := (ih hd).1
      refine ⟨(prefix_append s [d]).trans hpre, ?_⟩
      have := hpre.length_le
      rw [length_append, length_singleton] at this
      omega
    cases escaped with
    | true =>
      exact ⟨(hgrow c h).1, fun _ => (hgrow c h).2⟩
    | false =>
      refine ⟨?_, nofun⟩
      by_cases hb : c = backslash
      · simp only [extractLoop, hb] at h
        exact (ih (by simpa using h)).1
      · by_cases hs : c ∈ seps
        · rw [extractLoop_sep hs hb] at h
          cases h
          exact prefix_rfl
        · rw [extractLoop_plain ⟨hs, hb⟩] at h
          exact (hgrow c h).1

/-- A word has at least one byte. -/
theorem extractFirstWord_ne_nil {p : Option Bytes} (h : extractFirstWord seps {} p = .ok (some w, p')) :
    w ≠ [] := by
  cases p with
  | none => cases h
  | some p =>
    simp only [extractFirstWord, Bool.false_eq_true, if_false] at h
    split at h
    · cases h
    · next hrest =>
      rcases hdrop : p.dropWhile seps.contains with _ | ⟨c, rest⟩
      · exact absurd hdrop hrest
      -- the separators before the word have been skipped
      · have hc : c ∉ seps := by
          have hne : p.dropWhile seps.contains ≠ [] := by
            rw [hdrop]
            exact cons_ne_nil c rest
          have := head_dropWhile_not seps.contains hne
          simp only [hdrop, head_cons] at this
          simpa using this
        rw [hdrop] at h
        rintro rfl
        -- behind a backslash there is a byte of the word; any other byte is itself one
        by_cases hb : c = backslash
        · rw [show extractLoop seps {} none false 0 [] (c :: rest) =
            extractLoop seps {} none true 0 [] rest by simp [extractLoop, hb]] at h
          exact absurd ((extractLoop_extends h).2 rfl) (by simp)
        · rw [extractLoop_plain ⟨hc, hb⟩] at h
          have := (extractLoop_extends h).1
          simp at this

/-- Without backslashes in the text, a word is plain, and what is left has none either. -/
theorem extractLoop_of_noBackslash (hp : backslash ∉ p) (hs : ∀ c ∈ s, PlainIn seps c)
    (h : extractLoop seps {} none false 0 s p = .ok (some w, p')) : ∀ c ∈ w, PlainIn seps c := by
  induction p generalizing s with
  | nil =>
    cases h
    exact hs
  | cons c p ih =>
    have hb : c ≠ backslash := fun he => hp (he ▸ .head _)
    by_cases hc : c ∈ seps
    · rw [extractLoop_sep hc hb] at h
      cases h
      exact hs
    · rw [extractLoop_plain ⟨hc, hb⟩] at h
      refine ih (fun hmem => hp (.tail _ hmem)) (fun d hd => ?_) h
      rcases mem_append.mp hd with hd | hd
      · exact hs d hd
      · exact mem_singleton.mp hd ▸ ⟨hc, hb⟩

theorem words_ne_nil {p : Option Bytes} (h : strvSplitLoop seps {} n p = some (.ok ws)) :
    ∀ w ∈ ws, w ≠ [] := by
  induction n generalizing p ws with
  | zero => cases h
  | succ n ih =>
    unfold strvSplitLoop at h
    split at h
    · cases h
    · cases h
      exact nofun
    · next w p' heq =>
      obtain ⟨r, hr, hmap⟩ := Option.map_eq_some_iff.mp h
      cases r with
      | error e => cases hmap
      | ok rest =>
        cases hmap
        intro v hv
        cases hv with
        | head => exact extractFirstWord_ne_nil heq
        | tail _ hv => exact ih hr v hv

theorem words_plain {p : Option Bytes} (hp : ∀ b, p = some b → backslash ∉ b)
    (h : strvSplitLoop seps {} n p = some (.ok ws)) : ∀ w ∈ ws, ∀ c ∈ w, PlainIn seps c := by
  induction n generalizing p ws with
  | zero => cases h
  | succ n ih =>
    unfold strvSplitLoop at h
    split at h
    · cases h
    · cases h
      exact nofun
    · next w p' heq =>
      obtain ⟨r, hr, hmap⟩ := Option.map_eq_some_iff.mp h
      cases r with
      | error e => cases hmap
      | ok rest =>
        cases hmap
        cases p with
        | none => cases heq
        | some b =>
          have hb := hp b rfl
          have hleft := extractFirstWord_progress rfl heq
          intro v hv
          cases hv with
          | head =>
            simp only [extractFirstWord, Bool.false_eq_true, if_false] at heq
            split at heq
            · cases heq
            · exact extractLoop_of_noBackslash
                (fun hmem => hb ((dropWhile_suffix _).subset hmem))
                (fun _ hc => absurd hc not_mem_nil) heq
          | tail _ hv =>
            exact ih (fun b' hb' hmem => hb ((hleft b' hb').1.subset hmem)) hr v hv

/-- The words joined by a separator. -/
def joinWords (sep : UInt8) (ws : List Bytes) : Bytes := [sep].intercalate ws

/-- A plain word at the beginning of a text is taken, and the separator after it. -/
theorem extractFirstWord_join {sep : UInt8} (hsep : sep ∈ seps) (hne : sep ≠ backslash)
    (hw : ∀ v ∈ w :: ws, v ≠ [] ∧ ∀ c ∈ v, PlainIn seps c) :
    extractFirstWord seps {} (some (joinWords sep (w :: ws))) =
      .ok (some w, if ws = [] then none else some (joinWords sep ws)) := by
  -- nothing is skipped before a plain word
  have hstart : ∀ v ∈ w :: ws, ∀ t, (v ++ t).dropWhile seps.contains = v ++ t := by
    intro v hv t
    obtain ⟨hnil, hplain⟩ := hw v hv
    cases v with
    | nil => exact absurd rfl hnil
    | cons c v => exact dropWhile_cons_of_neg (by simpa using (hplain c (.head _)).1)
  have hword := extractLoop_word (hw w (.head _)).2 []
  cases ws with
  | nil =>
    have heq : joinWords sep [w] = w ++ [] := by simp [joinWords, intercalate]
    simp only [extractFirstWord, Bool.false_eq_true, if_false, heq, hstart w (.head _) []]
    split
    · next hnil => exact absurd (append_eq_nil_iff.mp hnil).1 (hw w (.head _)).1
    · rw [hword]
      rfl
  | cons v ws =>
    have heq : joinWords sep (w :: v :: ws) = w ++ sep :: joinWords sep (v :: ws) := by
      simp [joinWords, intercalate, intersperse]
    have hv : ∃ t, joinWords sep (v :: ws) = v ++ t := by
      cases ws with
      | nil => exact ⟨[], by simp [joinWords, intercalate]⟩
      | cons u ws => exact ⟨_, by simp [joinWords, intercalate, intersperse]; rfl⟩
    obtain ⟨t, ht⟩ := hv
    have hdrop : (joinWords sep (v :: ws)).dropWhile seps.contains = joinWords sep (v :: ws) := by
      rw [ht]
      exact hstart v (.tail _ (.head _)) t
    have hnil : joinWords sep (v :: ws) ≠ [] := by
      rw [ht]
      exact fun h => (hw v (.tail _ (.head _))).1 (append_eq_nil_iff.mp h).1
    simp only [extractFirstWord, Bool.false_eq_true, if_false, heq, hstart w (.head _)]
    split
    · next hnil => exact absurd (append_eq_nil_iff.mp hnil).1 (hw w (.head _)).1
    · rw [hword, extractLoop_sep hsep hne, hdrop, if_neg hnil]
      rfl

/-- Plain words are taken from their join again. -/
theorem strvSplitLoop_join {sep : UInt8} (hsep : sep ∈ seps) (hne : sep ≠ backslash)
    (hw : ∀ w ∈ ws, w ≠ [] ∧ ∀ c ∈ w, PlainIn seps c) (hn : ws.length < n) :
    strvSplitLoop seps {} n (if ws = [] then none else some (joinWords sep ws)) = some (.ok ws) := by
  induction n generalizing ws with
  | zero => exact absurd hn (Nat.not_lt_zero _)
  | succ n ih =>
    cases ws with
    | nil => rfl
    | cons w ws =>
      rw [if_neg (cons_ne_nil w ws), strvSplitLoop, extractFirstWord_join hsep hne hw]
      dsimp only
      rw [ih (fun v hv => hw v (.tail _ hv)) (Nat.lt_of_succ_lt_succ hn)]
      rfl

theorem length_le_join (sep : UInt8) (ws : List Bytes) : ws.length ≤ (joinWords sep ws).length + 1 := by
  induction ws with
  | nil => exact Nat.zero_le _
  | cons w ws ih =>
    cases ws with
    | nil => simp
    | cons v ws =>
      have : joinWords sep (w :: v :: ws) = w ++ sep :: joinWords sep (v :: ws) := by
        simp [joinWords, intercalate, intersperse]
      rw [this, length_append, length_cons]
      simp only [length_cons] at ih ⊢
      omega

/-- Taking words out of a text makes progress and ends, for every set of separators and all flags but the
    one that keeps the separators.  Without flags the words are not empty; from a text without backslashes
    they have neither separators nor backslashes, and whenever that is so the words joined by a separator
    other than the backslash give the same words again. -/
theorem extract_progress_fixpoint (seps : Bytes) :
    (∀ f : ExtractFlags, f.retainSeparators = false → ∀ p w p',
      extractFirstWord seps f (some p) = .ok (w, p') →
        p' = none ∨ ∃ b, p' = some b ∧ b <:+ p ∧ b.length < p.length) ∧
    (∀ f : ExtractFlags, f.retainSeparators = false → ∀ s, ∃ r, strvSplitFull s seps f = some r) ∧
    ∀ s ws, strvSplitFull s seps {} = some (.ok ws) →
      (∀ w ∈ ws, w ≠ []) ∧
      (backslash ∉ s → ∀ w ∈ ws, ∀ c ∈ w, c ∉ seps ∧ c ≠ backslash) ∧
      ((∀ w ∈ ws, ∀ c ∈ w, c ∉ seps ∧ c ≠ backslash) → ∀ sep ∈ seps, sep ≠ backslash →
        strvSplitFull (joinWords sep ws) seps {} = some (.ok ws)) := by
  refine ⟨fun f hf p w p' h => ?_, fun f hf s => strvSplitLoop_ends hf (Nat.le_refl _), fun s ws h => ?_⟩
  · cases p' with
    | none => exact .inl rfl
    | some b => exact .inr ⟨b, rfl, extractFirstWord_progress hf h b rfl⟩
  · refine ⟨words_ne_nil h, fun hs => words_plain (fun b hb => Option.some.inj hb ▸ hs) h,
      fun hplain sep hsep hne => ?_⟩
    -- the words are plain now, so that their join can be read
    have hw : ∀ w ∈ ws, w ≠ [] ∧ ∀ c ∈ w, PlainIn seps c :=
      fun w hw => ⟨words_ne_nil h w hw, hplain w hw⟩
    have hlen := length_le_join sep ws
    cases ws with
    | nil => rfl
    | cons w ws =>
      have := strvSplitLoop_join hsep hne hw (n := extractRounds (some (joinWords sep (w :: ws))))
        (by simp only [extractRounds, Option.elim_some]; omega)
      rwa [if_neg (cons_ne_nil w ws)] at this

/-- A separator after a backslash becomes part of the word, so that the word falls apart the next time. -/
theorem extract_keeps_escaped_separator :
    strvSplitFull (ascii "a\\ b") [space] {} = some (.ok [ascii "a b"]) ∧
    strvSplitFull (joinWords space [ascii "a b"]) [space] {} = some (.ok [ascii "a", ascii "b"]) :=
  ⟨by decide, by decide⟩

end Elogind
