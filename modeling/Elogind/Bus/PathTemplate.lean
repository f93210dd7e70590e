/-
  Elogind.Bus.PathTemplate

  Object paths that carry escaped labels (sd-bus.c): one label behind a path, or a template in
  which every `%` stands for a label or a part of one.
-/

import Elogind.Basic.Errno
import Elogind.Bus.Names
import Mathlib.Data.List.TakeWhile

namespace Elogind

open Byte List

/-! ## One label -/

/-- The second loop of `path_extend_internal`; the flag says that no slash is needed. -/
def pathJoinLoop : Bool → List Bytes → Bytes
  | _, [] => []
  | noSlash, p :: ps =>
    if p = [] then pathJoinLoop noSlash ps
    else
      (if !noSlash && p.headD 0 ≠ slash then [slash] else []) ++ p ++
        pathJoinLoop (p.getLast? == some slash) ps

/-- `path_join` -/
def pathJoin (ps : List Bytes) : Bytes := pathJoinLoop true ps

/-- `object_path_startswith`: what follows `b` in `a`. -/
def objectPathStartswith (a b : Bytes) : Option Bytes :=
  if !objectPathIsValid a || !objectPathIsValid b then none
  else if b = [slash] then some a.tail
  else if ¬ (b <+: a) then none
  else
    let p := a.drop b.length
    if p = [] then some p
    else if p.headD 0 = slash then some p.tail
    else none

/-- `sd_bus_path_encode` -/
def pathEncode (pre externalId : Bytes) : Result Bytes :=
  if !objectPathIsValid pre then .error Errno.EINVAL else .ok (pathJoin [pre, busLabelEscape externalId])

/-- `sd_bus_path_decode`; nothing is returned for a path that does not start so. -/
def pathDecode (path pre : Bytes) : Result (Option Bytes) :=
  if !objectPathIsValid path then .error Errno.EINVAL
  else if !objectPathIsValid pre then .error Errno.EINVAL
  else .ok ((objectPathStartswith path pre).map busLabelUnescape)

/-! ## Templates -/

/-- The labels of `sd_bus_path_encode_many`, one for each directive; an argument that is missing
    is NULL. -/
def encodeLabels : Bytes → List Bytes → Result (List Bytes)
  | [], _ => .ok []
  | c :: template, args =>
    if c = percent then
      match args with
      | [] => .error Errno.EINVAL
      | arg :: args =>
        match encodeLabels template args with
        | .error e => .error e
        | .ok labels => .ok (busLabelEscape arg :: labels)
    else encodeLabels template args

/-- The template with its directives replaced by the labels. -/
def fillTemplate : Bytes → List Bytes → Bytes
  | [], _ => []
  | c :: template, labels =>
    if c = percent then labels.headD [] ++ fillTemplate template labels.tail
    else c :: fillTemplate template labels

/-- `sd_bus_path_encode_many` -/
def pathEncodeMany (template : Bytes) (args : List Bytes) : Result Bytes :=
  match encodeLabels template args with
  | .error e => .error e
  | .ok labels => .ok (fillTemplate template labels)

/-- The loop of `sd_bus_path_decode_many`: the labels, and the path behind the template.  Every
    round takes a directive from the template. -/
def decodeManyLoop : Nat → Bytes → Bytes → Option (List Bytes × Bytes)
  | 0, _, _ => none
  | fuel + 1, path, template =>
    if template = [] then some ([], path)
    else
      -- everything up to the next directive matches verbatim
      let verbatim := template.takeWhile (· ≠ percent)
      if ¬ (verbatim <+: path) then none
      else
        let path := path.drop verbatim.length
        let template := template.drop verbatim.length
        if template = [] then some ([], path)
        else
          let template := template.tail
          -- the rest of the label in the template is the end of the label in the path
          let tail := template.takeWhile (· ≠ slash)
          let label := path.takeWhile (· ≠ slash)
          if tail.length > label.length ∨ label.drop (label.length - tail.length) ≠ tail then none
          else
            match decodeManyLoop fuel (path.drop label.length) (template.drop tail.length) with
            | none => none
            | some (labels, rest) =>
              some (busLabelUnescape (label.take (label.length - tail.length)) :: labels, rest)

/-- `sd_bus_path_decode_many`; nothing is returned when the path does not match. -/
def pathDecodeMany (path template : Bytes) : Option (List Bytes) :=
  match decodeManyLoop (template.length + 1) path template with
  | none => none
  | some (labels, rest) => if rest ≠ [] then none else some labels

/-- There is at most one directive in each label. -/
def OnePerLabel (template : Bytes) : Prop :=
  ∀ a b c, template = a ++ percent :: b ++ percent :: c → slash ∈ b

/-! ## A label behind a path -/

theorem isLabelChar_ne_slash {c : UInt8} (h : isLabelChar c = true) : c ≠ slash := by
  rintro rfl
  exact absurd h (by decide)

theorem slash_notMem_busLabelEscape (s : Bytes) : slash ∉ busLabelEscape s :=
  fun h => isLabelChar_ne_slash (isLabelChar_of_mem_busLabelEscape h) rfl

variable {q pre label template : Bytes} {args : List Bytes}

theorem objectPathLoop_append {r : Bytes} (hr : ∀ c ∈ r, isLabelChar c = true) {afterSlash : Bool}
    (hq : objectPathLoop afterSlash q = true) (hne : r ≠ []) :
    objectPathLoop afterSlash (q ++ slash :: r) = true := by
  have hlabel : ∀ {r : Bytes}, (∀ c ∈ r, isLabelChar c = true) → objectPathLoop false r = true := by
    intro r hr
    induction r with
    | nil => rfl
    | cons c r ih =>
      rw [objectPathLoop, if_neg (isLabelChar_ne_slash (hr c (mem_cons_self ..))),
        hr c (mem_cons_self ..), Bool.true_and]
      exact ih fun d hd => hr d (mem_cons_of_mem c hd)
  induction q generalizing afterSlash with
  | nil =>
    obtain ⟨c, r, rfl⟩ := exists_cons_of_ne_nil hne
    have hc := hr c (mem_cons_self ..)
    rw [objectPathLoop, Bool.not_eq_true'] at hq
    rw [nil_append, objectPathLoop, if_pos rfl, hq, objectPathLoop, if_neg (isLabelChar_ne_slash hc), hc,
      hlabel fun d hd => hr d (mem_cons_of_mem c hd)]
    rfl
  | cons d q ih =>
    rw [cons_append, objectPathLoop]
    rw [objectPathLoop] at hq
    split at hq
    · next hd =>
      rw [Bool.and_eq_true] at hq
      rw [if_pos hd, hq.1, ih hq.2]
      rfl
    · next hd =>
      rw [Bool.and_eq_true] at hq
      rw [if_neg hd, hq.1, ih hq.2]
      rfl

/-- A path other than the root, and what stands in it. -/
theorem objectPathIsValid_cons (h : objectPathIsValid (slash :: q) = true) (hne : q ≠ []) :
    objectPathLoop true q = true := by
  rw [objectPathIsValid, Bool.and_eq_true, Bool.or_eq_true, Bool.and_eq_true] at h
  rcases h.2 with hempty | hloop
  · exact absurd (isEmpty_iff.mp hempty) hne
  · exact hloop.1

theorem objectPathLoop_getLast {afterSlash : Bool} (h : objectPathLoop afterSlash q = true)
    (hne : q ≠ []) : q.getLast? ≠ some slash := by
  induction q generalizing afterSlash with
  | nil => exact absurd rfl hne
  | cons c q ih =>
    rw [objectPathLoop] at h
    cases q with
    | nil =>
      intro hlast
      rw [getLast?_singleton, Option.some.injEq] at hlast
      rw [if_pos hlast, Bool.and_eq_true] at h
      exact absurd h.2 (by decide)
    | cons d q =>
      split at h
      · exact ih (Bool.and_eq_true_iff.mp h).2 (cons_ne_nil d q)
      · exact ih (Bool.and_eq_true_iff.mp h).2 (cons_ne_nil d q)

/-- The label is put behind the root, or behind a slash of its own. -/
theorem pathJoin_label (hpre : objectPathIsValid pre = true) (hne : label ≠ [])
    (hlabel : ∀ c ∈ label, isLabelChar c = true) :
    pathJoin [pre, label] = if pre = [slash] then slash :: label else pre ++ slash :: label := by
  obtain ⟨c, l, rfl⟩ := exists_cons_of_ne_nil hne
  have hc := isLabelChar_ne_slash (hlabel c (mem_cons_self ..))
  cases pre with
  | nil => exact absurd hpre (by decide)
  | cons d q =>
    have hd : d = slash := by
      rw [objectPathIsValid, Bool.and_eq_true] at hpre
      exact beq_iff_eq.mp hpre.1
    subst hd
    simp only [pathJoin, pathJoinLoop, cons_ne_nil, if_false, headD_cons]
    cases q with
    | nil => simp
    | cons e q =>
      have hlast := objectPathLoop_getLast (objectPathIsValid_cons hpre (cons_ne_nil e q)) (cons_ne_nil e q)
      rw [getLast?_cons_cons, beq_eq_false_iff_ne.mpr hlast]
      simp [hc]

/-- A path with a label behind it is one if it is not too long. -/
theorem objectPathIsValid_pathJoin (hpre : objectPathIsValid pre = true) (hne : label ≠ [])
    (hlabel : ∀ c ∈ label, isLabelChar c = true)
    (hsize : (pathJoin [pre, label]).length ≤ busPathSizeMax) :
    objectPathIsValid (pathJoin [pre, label]) = true := by
  have hroot : objectPathLoop true label = true := by
    obtain ⟨c, l, rfl⟩ := exists_cons_of_ne_nil hne
    have hbehind : objectPathLoop false ([] ++ slash :: c :: l) = true := objectPathLoop_append hlabel rfl hne
    rwa [nil_append, objectPathLoop, if_pos rfl, Bool.not_false, Bool.true_and] at hbehind
  rw [pathJoin_label hpre hne hlabel] at hsize ⊢
  cases pre with
  | nil => exact absurd hpre (by decide)
  | cons d q =>
    have hd : d = slash := by
      rw [objectPathIsValid, Bool.and_eq_true] at hpre
      exact beq_iff_eq.mp hpre.1
    subst hd
    by_cases hq : q = []
    · rw [hq, if_pos rfl] at hsize ⊢
      rw [objectPathIsValid, hroot, decide_eq_true hsize]
      simp
    · have hjoined := objectPathLoop_append hlabel (objectPathIsValid_cons hpre hq) hne
      have hcons : slash :: q ≠ [slash] := fun h => hq (cons.inj h).2
      rw [if_neg hcons] at hsize ⊢
      rw [cons_append] at hsize ⊢
      rw [objectPathIsValid, hjoined, decide_eq_true hsize]
      simp

theorem busLabelEscape_ne_nil (s : Bytes) : busLabelEscape s ≠ [] := by
  obtain ⟨c, t, h, -⟩ := busLabelEscape_head s
  rw [h]
  exact cons_ne_nil c t

/-- The label is what follows the path. -/
theorem objectPathStartswith_pathJoin (hpre : objectPathIsValid pre = true) (hne : label ≠ [])
    (hlabel : ∀ c ∈ label, isLabelChar c = true)
    (hsize : (pathJoin [pre, label]).length ≤ busPathSizeMax) :
    objectPathStartswith (pathJoin [pre, label]) pre = some label := by
  have hvalid := objectPathIsValid_pathJoin hpre hne hlabel hsize
  unfold objectPathStartswith
  rw [hvalid, hpre, pathJoin_label hpre hne hlabel]
  by_cases hroot : pre = [slash]
  · simp [hroot]
  · simp [hroot]

theorem pathDecode_pathEncode (id : Bytes) (hpre : objectPathIsValid pre = true) :
    ∃ path, pathEncode pre id = .ok path ∧
      (path.length ≤ busPathSizeMax → pathDecode path pre = .ok (some id)) := by
  have hne := busLabelEscape_ne_nil id
  have hlabel : ∀ c ∈ busLabelEscape id, isLabelChar c = true := fun c hc => isLabelChar_of_mem_busLabelEscape hc
  refine ⟨pathJoin [pre, busLabelEscape id], ?_, fun hsize => ?_⟩
  · rw [pathEncode, hpre]
    rfl
  · rw [pathDecode, objectPathIsValid_pathJoin hpre hne hlabel hsize, hpre,
      objectPathStartswith_pathJoin hpre hne hlabel hsize, Option.map_some, busLabelUnescape_busLabelEscape]
    rfl

/-! ## Labels in a template -/

theorem encodeLabels_eq (h : args.length = template.count percent) :
    encodeLabels template args = .ok (args.map busLabelEscape) := by
  induction template generalizing args with
  | nil =>
    rw [length_eq_zero_iff.mp h]
    rfl
  | cons c template ih =>
    by_cases hc : c = percent
    · rw [hc, count_cons_self] at h
      obtain ⟨arg, args, rfl⟩ := exists_cons_of_length_eq_add_one h
      rw [encodeLabels.eq_def]
      simp only [if_pos hc, ih (Nat.succ.inj h), map_cons]
    · rw [count_cons_of_ne hc] at h
      rw [encodeLabels.eq_def]
      simp only [if_neg hc, ih h]

theorem fillTemplate_append {v : Bytes} (hv : percent ∉ v) (template : Bytes) (labels : List Bytes) :
    fillTemplate (v ++ template) labels = v ++ fillTemplate template labels := by
  induction v with
  | nil => rfl
  | cons c v ih =>
    rw [mem_cons, not_or] at hv
    rw [cons_append, fillTemplate, if_neg (Ne.symm hv.1), ih hv.2]
    rfl

/-- A text up to the first byte `d`, and what is left. -/
theorem takeWhile_split (d : UInt8) (s : Bytes) :
    ∃ r, s = s.takeWhile (· ≠ d) ++ r ∧ d ∉ s.takeWhile (· ≠ d) ∧ (r = [] ∨ ∃ t, r = d :: t) := by
  refine ⟨s.dropWhile (· ≠ d), takeWhile_append_dropWhile.symm, fun h => ?_, ?_⟩
  · have hd := mem_takeWhile_imp h
    exact absurd rfl (of_decide_eq_true hd)
  · cases hr : s.dropWhile (· ≠ d) with
    | nil => exact .inl rfl
    | cons c t =>
      have hne : s.dropWhile (· ≠ d) ≠ [] := by
        rw [hr]
        exact cons_ne_nil c t
      have hc := head_dropWhile_not (fun c => decide (c ≠ d)) hne
      simp only [hr, head_cons, decide_eq_false_iff_not, ne_eq, not_not] at hc
      exact .inr ⟨t, by rw [hc]⟩

theorem takeWhile_label {r : Bytes} (hlabel : slash ∉ label) (hr : r = [] ∨ ∃ t, r = slash :: t) :
    (label ++ r).takeWhile (· ≠ slash) = label := by
  have hall : ∀ c ∈ label, decide (c ≠ slash) = true := by
    intro c hc
    exact decide_eq_true fun h => hlabel (h ▸ hc)
  rw [takeWhile_append_of_pos hall]
  rcases hr with rfl | ⟨t, rfl⟩
  · rw [takeWhile_nil, append_nil]
  · rw [takeWhile_cons_of_neg (by simp), append_nil]

/-- A template whose first directive stands between `v` and `tail` in its label. -/
theorem OnePerLabel.split {v tail rest : Bytes} (h : OnePerLabel (v ++ percent :: (tail ++ rest)))
    (htail : slash ∉ tail) : percent ∉ tail ∧ OnePerLabel rest := by
  constructor
  · intro hmem
    obtain ⟨b, c, rfl⟩ := append_of_mem hmem
    have hslash := h v b (c ++ rest) (by simp)
    exact htail (mem_append_left _ hslash)
  · rintro a b c rfl
    exact h (v ++ percent :: (tail ++ a)) b c (by simp)

/-- The directives are matched one after the other; the induction is on the rounds of the loop. -/
theorem decodeManyLoop_fillTemplate {fuel : Nat} (hone : OnePerLabel template)
    (hargs : args.length = template.count percent) (hfuel : template.length < fuel) :
    decodeManyLoop fuel (fillTemplate template (args.map busLabelEscape)) template = some (args, []) := by
  induction fuel generalizing template args with
  | zero => omega
  | succ fuel ih =>
    rw [decodeManyLoop]
    by_cases hnil : template = []
    · subst hnil
      rw [length_eq_zero_iff.mp hargs]
      rfl
    rw [if_neg hnil]
    obtain ⟨r, hsplit, hv, hr⟩ := takeWhile_split percent template
    generalize template.takeWhile (· ≠ percent) = v at hsplit hv ⊢
    subst hsplit
    rw [fillTemplate_append hv]
    simp only [drop_left, prefix_append, not_true_eq_false, if_false]
    have hcount : v.count percent = 0 := count_eq_zero.mpr hv
    rcases hr with rfl | ⟨t, rfl⟩
    · rw [append_nil, hcount] at hargs
      rw [length_eq_zero_iff.mp hargs]
      rfl
    · obtain ⟨rest, hrest, htail, hslash⟩ := takeWhile_split slash t
      generalize htake : t.takeWhile (· ≠ slash) = tail at hrest htail
      subst hrest
      obtain ⟨htail', hone'⟩ := hone.split htail
      rw [count_append, hcount, count_cons_self, count_append, count_eq_zero.mpr htail',
        Nat.zero_add, Nat.zero_add] at hargs
      obtain ⟨arg, args, rfl⟩ := exists_cons_of_length_eq_add_one hargs
      rw [length_append, length_cons, length_append] at hfuel
      have hfill : fillTemplate (percent :: (tail ++ rest)) ((arg :: args).map busLabelEscape) =
          (busLabelEscape arg ++ tail) ++ fillTemplate rest (args.map busLabelEscape) := by
        rw [fillTemplate, if_pos rfl, map_cons, headD_cons, tail_cons, fillTemplate_append htail',
          append_assoc]
      have hlabel : slash ∉ busLabelEscape arg ++ tail := by
        rw [mem_append, not_or]
        exact ⟨slash_notMem_busLabelEscape arg, htail⟩
      have hnext : fillTemplate rest (args.map busLabelEscape) = [] ∨
          ∃ t, fillTemplate rest (args.map busLabelEscape) = slash :: t := by
        rcases hslash with rfl | ⟨t, rfl⟩
        · exact .inl rfl
        · exact .inr ⟨fillTemplate t _, by rw [fillTemplate, if_neg (by decide)]⟩
      have hrec := ih hone' (Nat.succ.inj hargs) (by omega)
      rw [if_neg (cons_ne_nil _ _), hfill]
      simp only [tail_cons, htake, takeWhile_label hlabel hnext, drop_left, hrec]
      have hlen : (busLabelEscape arg).length + tail.length - tail.length = (busLabelEscape arg).length := by omega
      have hfits : ¬ tail.length > (busLabelEscape arg).length + tail.length := by omega
      simp only [length_append, hlen, drop_left, take_left, busLabelUnescape_busLabelEscape, hfits, ne_eq,
        not_true_eq_false, or_self, if_false]

theorem pathDecodeMany_pathEncodeMany (hone : OnePerLabel template)
    (hargs : args.length = template.count percent) :
    ∃ path, pathEncodeMany template args = .ok path ∧ pathDecodeMany path template = some args := by
  refine ⟨fillTemplate template (args.map busLabelEscape), ?_, ?_⟩
  · rw [pathEncodeMany, encodeLabels_eq hargs]
  · rw [pathDecodeMany, decodeManyLoop_fillTemplate hone hargs (Nat.lt_succ_self _)]
    rfl

/-- What was encoded in an object path is decoded from it. -/
theorem path_roundTrip :
    (∀ pre id : Bytes, objectPathIsValid pre = true →
      ∃ path, pathEncode pre id = .ok path ∧
        (path.length ≤ busPathSizeMax → pathDecode path pre = .ok (some id))) ∧
    (∀ (template : Bytes) (args : List Bytes), OnePerLabel template → args.length = template.count percent →
      ∃ path, pathEncodeMany template args = .ok path ∧ pathDecodeMany path template = some args) :=
  ⟨fun _ id hpre => pathDecode_pathEncode id hpre, fun _ _ hone hargs => pathDecodeMany_pathEncodeMany hone hargs⟩

theorem onePerLabel_of_count (h : template.count percent ≤ 1) : OnePerLabel template := by
  rintro a b c rfl
  simp only [count_append, count_cons_self] at h
  omega

/-- A directive inside a label, for a text that has to be escaped. -/
theorem path_roundTrip_slash :
    (∃ path, pathEncode (ascii "/a") (ascii "1/2") = .ok path ∧
      (path.length ≤ busPathSizeMax → pathDecode path (ascii "/a") = .ok (some (ascii "1/2")))) ∧
    (∃ path, pathEncodeMany (ascii "/a/x%y") [ascii "/"] = .ok path ∧
      pathDecodeMany path (ascii "/a/x%y") = some [ascii "/"]) :=
  ⟨(path_roundTrip).1 (ascii "/a") (ascii "1/2") (by decide),
    (path_roundTrip).2 (ascii "/a/x%y") [ascii "/"] (onePerLabel_of_count (by decide)) (by decide)⟩

end Elogind
