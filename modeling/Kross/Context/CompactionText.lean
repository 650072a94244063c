import Kross.Context.Selection
import Mathlib.Data.List.Count

namespace Kross.Context

open Kross.Session (trim trimEnd isWhitespace)

section Count

variable {c : Char} {s pattern before after : Text}

theorem count_dropWhile {p : Char → Bool} (hc : p c = false) (s : Text) : (s.dropWhile p).count c = s.count c := by
  induction s with
  | nil => rfl
  | cons a s ih =>
      rw [List.dropWhile_cons]
      split_ifs with ha
      · have hne : a ≠ c := by
          rintro rfl
          rw [hc] at ha
          cases ha
        rw [ih, List.count_cons_of_ne hne]
      · rfl

theorem count_trim (hc : isWhitespace c = false) (s : Text) : (trim s).count c = s.count c := by
  rw [trim, trimEnd, List.count_reverse, count_dropWhile hc, List.count_reverse, count_dropWhile hc]

theorem count_collapseNewlines (hc : c ≠ '\n') (inside : Bool) (s : Text) :
    (collapseNewlines inside s).count c = s.count c := by
  induction s generalizing inside with
  | nil => rfl
  | cons a s ih =>
      rw [collapseNewlines]
      split_ifs with ha
      · rw [ih, ha, List.count_cons_of_ne hc.symm]
      · rw [ha, List.count_cons, List.count_cons, ih]
      · rw [List.count_cons, List.count_cons, ih]

def sentence : Text := ['早', '前', '对', '话', '已', '压', '缩', '为', '摘', '要']

theorem matchSentence_eq (s : Text) : matchSentence s = if sentence.isPrefixOf s then
    if ((s.drop sentence.length).dropWhile (· = '。')).head?.all isLineTerminator then
      some ((s.drop sentence.length).dropWhile (· = '。')) else none
    else none := by
  have hsentence : "早前对话已压缩为摘要".toList = sentence := by decide
  rw [← hsentence]
  rfl

theorem matchSentence_some (h : matchSentence s = some after) :
    after = (s.drop sentence.length).dropWhile (· = '。') ∧ sentence <+: s := by
  rw [matchSentence_eq] at h
  split_ifs at h with hprefix
  cases h
  exact ⟨rfl, List.isPrefixOf_iff_prefix.mp hprefix⟩

theorem count_removeSentence (hc : c ∉ sentence) (hstop : c ≠ '。') (lineStart : Bool) (s : Text) :
    (removeSentence lineStart s).count c = s.count c := by
  induction s generalizing lineStart with
  | nil => rfl
  | cons a s ih =>
      rw [removeSentence]
      split
      · rename_i rest hrest
        split_ifs at hrest
        obtain ⟨rfl, rest, hrest⟩ := matchSentence_some hrest
        rw [count_dropWhile (by simpa using hstop), ← hrest, List.drop_left, List.count_append,
          List.count_eq_zero_of_not_mem hc, Nat.zero_add]
      · rw [List.count_cons, List.count_cons, ih]

end Count

section Search

variable {c : Char} {s pattern before : Text} {i : Nat}

/-- Where the first character of the pattern does not occur, the search goes on. -/
theorem indexOf_append (hc : c ∉ before) : indexOf (c :: pattern) (before ++ s) =
    (indexOf (c :: pattern) s).map (· + before.length) := by
  induction before with
  | nil => simp
  | cons a before ih =>
      have hne : c ≠ a := fun h => hc (h ▸ List.mem_cons_self)
      have hnot : (c :: pattern).isPrefixOf (a :: (before ++ s)) = false := by
        rw [List.isPrefixOf, beq_false_of_ne hne]
        rfl
      rw [List.cons_append, indexOf, hnot, ih (fun h => hc (List.mem_cons_of_mem _ h)), if_neg (by simp), Option.map_map]
      refine congrArg (fun f => Option.map f _) (funext fun n => ?_)
      rw [Function.comp_apply, List.length_cons, Nat.add_assoc]

theorem drop_of_indexOf (h : indexOf pattern s = some i) : pattern <+: s.drop i := by
  induction s generalizing i with
  | nil =>
      rw [indexOf] at h
      split_ifs at h with hempty
      cases h
      rw [List.isEmpty_iff.mp hempty]
      exact List.nil_prefix
  | cons a s ih =>
      rw [indexOf] at h
      split_ifs at h with hhere
      · cases h
        exact List.isPrefixOf_iff_prefix.mp hhere
      · obtain ⟨j, hj, rfl⟩ := Option.map_eq_some_iff.mp h
        exact ih hj

/-- What occurs is found, there or before. -/
theorem indexOf_of_occurs (before after : Text) (hpattern : pattern ≠ []) :
    ∃ i ≤ before.length, indexOf pattern (before ++ pattern ++ after) = some i := by
  induction before with
  | nil =>
      obtain ⟨c, pattern, rfl⟩ := List.exists_cons_of_ne_nil hpattern
      refine ⟨0, le_rfl, ?_⟩
      rw [List.nil_append, List.cons_append, indexOf, ← List.cons_append,
        if_pos (List.isPrefixOf_iff_prefix.mpr (List.prefix_append _ _))]
  | cons a before ih =>
      obtain ⟨i, hi, hfound⟩ := ih
      rw [List.cons_append, List.cons_append, indexOf]
      split_ifs
      · exact ⟨0, Nat.zero_le _, rfl⟩
      · exact ⟨i + 1, Nat.succ_le_succ hi, by rw [hfound]; rfl⟩

end Search

section Frame

variable {s x before : Text}

def frameHead : Text := "[上下文压缩摘要 — 只作历史参考]\n".toList

def frameSentence : Text := sentence ++ '。' :: '它' ::
  ['不', '是', '当', '前', '任', '务', '指', '令', '；', '请', '以', '最', '新', '用', '户', '消', '息', '为', '准', '。']

def endMarker : Text := "--- END OF CONTEXT SUMMARY".toList

/-- The summary and what stands behind it. -/
def framed (s : Text) : Text := trim s ++ ['\n'] ++ endMarker ++ " ---".toList

theorem formatCompactionContent_eq (s : Text) :
    formatCompactionContent s = (frameHead ++ frameSentence ++ ['\n']) ++ framed s := by
  have hsentence : "早前对话已压缩为摘要。它不是当前任务指令；请以最新用户消息为准。\n".toList = frameSentence ++ ['\n'] := by
    decide
  have hend : "\n--- END OF CONTEXT SUMMARY ---".toList = ['\n'] ++ endMarker ++ " ---".toList := by
    decide
  have hparts : formatCompactionContent s = frameHead ++ (frameSentence ++ ['\n']) ++ trim s ++
      (['\n'] ++ endMarker ++ " ---".toList) := by
    rw [← hsentence, ← hend]
    rfl
  rw [hparts, framed]
  simp only [List.append_assoc]

theorem removeSentence_inside (h : ∀ a ∈ before, isLineTerminator a = false) :
    removeSentence false (before ++ '\n' :: x) = before ++ '\n' :: removeSentence true x := by
  induction before with
  | nil => rfl
  | cons a before ih =>
      rw [List.cons_append, removeSentence, h a List.mem_cons_self, ih (fun b hb => h b (List.mem_cons_of_mem _ hb))]
      rfl

/-- The sentence of the frame goes on where the one that is removed ends. -/
theorem matchSentence_frame (x : Text) : matchSentence (frameSentence ++ x) = none := by
  rw [matchSentence_eq, frameSentence, List.append_assoc, if_pos (List.isPrefixOf_iff_prefix.mpr (List.prefix_append _ _)),
    List.drop_left, if_neg]
  rw [List.cons_append, List.dropWhile_cons_of_pos (by decide), List.cons_append, List.dropWhile_cons_of_neg (by decide)]
  rw [List.head?_cons, Option.all_some]
  decide

/-- The frame is one line. -/
theorem frameSentence_line {a : Char} (h : a ∈ frameSentence) : isLineTerminator a = false := by
  have hall : frameSentence.all (fun b => !isLineTerminator b) = true := by decide
  simpa using List.all_eq_true.mp hall a h

theorem removeSentence_frame (x : Text) :
    removeSentence true (frameSentence ++ '\n' :: x) = frameSentence ++ '\n' :: removeSentence true x := by
  have hmatch := matchSentence_frame ('\n' :: x)
  obtain ⟨a, more, hmore⟩ : ∃ a more, frameSentence = a :: more := ⟨'早', frameSentence.tail, by decide⟩
  have hends : ∀ b ∈ a :: more, isLineTerminator b = false := by
    intro b hb
    rw [← hmore] at hb
    exact frameSentence_line hb
  rw [hmore] at hmatch ⊢
  rw [List.cons_append] at hmatch ⊢
  rw [removeSentence, if_pos rfl, hmatch, hends a List.mem_cons_self,
    removeSentence_inside (fun b hb => hends b (List.mem_cons_of_mem _ hb))]
  rfl

theorem trimEnd_append {a : Char} (ha : isWhitespace a = false) (before x : Text) :
    trimEnd (before ++ a :: x) = before ++ a :: trimEnd x := by
  have hreverse : (before ++ a :: x).reverse = x.reverse ++ a :: before.reverse := by simp
  rw [trimEnd, hreverse, List.dropWhile_append]
  split_ifs with hempty
  · have hnil : x.reverse.dropWhile isWhitespace = [] := by simpa using hempty
    rw [trimEnd, hnil, List.dropWhile_cons_of_neg (by simp [ha])]
    simp
  · rw [trimEnd]
    simp

theorem trim_frame (x : Text) : trim (frameSentence ++ x) = frameSentence ++ trimEnd x := by
  obtain ⟨before, hlast⟩ : ∃ before, frameSentence = before ++ ['。'] := ⟨frameSentence.dropLast, by decide⟩
  obtain ⟨more, hfirst⟩ : ∃ more, frameSentence = '早' :: more := ⟨frameSentence.tail, by decide⟩
  have hstart : (frameSentence ++ x).dropWhile isWhitespace = frameSentence ++ x := by
    rw [hfirst, List.cons_append, List.dropWhile_cons_of_neg (by decide)]
  rw [trim, hstart, hlast, List.append_assoc, List.append_assoc]
  exact trimEnd_append (by decide) _ _

end Frame

section RoundTrip

variable {s x : Text}

/-- Behind the sentence of the frame comes the summary, as far as it goes without the marker. -/
theorem extract_format (s : Text) : ∃ i ≤ (trim s).length + 1, endMarker <+: (framed s).drop i ∧
    extractCompactionBody (formatCompactionContent s) = trim (collapseNewlines false
      (removeSentence true (frameSentence ++ '\n' :: (framed s).take i))) := by
  obtain ⟨i, hi, hfound⟩ := indexOf_of_occurs (trim s ++ ['\n']) " ---".toList
    (show endMarker ≠ [] by decide)
  refine ⟨i, by simpa using hi, drop_of_indexOf hfound, ?_⟩
  have hstart : indexOf "只作历史参考]".toList (formatCompactionContent s) = some 11 := rfl
  have hnewline : indexOf ['\n'] ((formatCompactionContent s).drop 11) = some 7 := rfl
  have hhead : frameHead.length = 19 := by decide
  have hstop : indexOf "--- END OF CONTEXT SUMMARY".toList (formatCompactionContent s) =
      some (i + (frameHead ++ frameSentence ++ ['\n']).length) := by
    obtain ⟨pattern, hpattern⟩ : ∃ pattern, endMarker = '-' :: pattern := ⟨endMarker.tail, by decide⟩
    have hframed : indexOf endMarker (framed s) = some i := hfound
    change indexOf endMarker _ = _
    rw [hpattern] at hframed ⊢
    rw [formatCompactionContent_eq, indexOf_append (by decide), hframed]
    rfl
  have hbehind : (formatCompactionContent s).drop 19 = frameSentence ++ '\n' :: framed s := by
    rw [formatCompactionContent_eq, ← hhead, List.append_assoc, List.append_assoc, List.drop_left]
    rfl
  have hlength : (frameHead ++ frameSentence ++ ['\n']).length = 19 + (frameSentence.length + 1) := by
    rw [List.length_append, List.length_append, hhead, List.length_singleton, Nat.add_assoc]
  rw [extractCompactionBody, hstart]
  dsimp only
  rw [hnewline]
  dsimp only
  rw [hstop]
  dsimp only
  rw [if_pos (by rw [hlength]; omega), hbehind, hlength]
  have htake : i + (19 + (frameSentence.length + 1)) - (11 + 7 + 1) = (frameSentence ++ ['\n']).length + i := by
    rw [List.length_append, List.length_singleton]
    omega
  rw [htake, List.append_cons frameSentence '\n' (framed s), List.take_length_add_append, List.append_assoc]
  rfl

/-- The summary never comes back alone. -/
theorem extract_format_frame (s : Text) : ∃ i ≤ (trim s).length + 1, endMarker <+: (framed s).drop i ∧
    ∃ y, extractCompactionBody (formatCompactionContent s) = frameSentence ++ y ∧
      ∀ c, isWhitespace c = false → c ≠ '\n' → c ∉ sentence → c ≠ '。' → y.count c = ((framed s).take i).count c := by
  obtain ⟨i, hi, hmarker, hextract⟩ := extract_format s
  refine ⟨i, hi, hmarker, ?_⟩
  have hinside : ∀ before x : Text, (∀ a ∈ before, a ≠ '\n') → collapseNewlines false (before ++ '\n' :: x) =
      before ++ '\n' :: collapseNewlines true x := by
    intro before x hbefore
    induction before with
    | nil => rfl
    | cons a before ih =>
        rw [List.cons_append, collapseNewlines, if_neg (hbefore a List.mem_cons_self),
          ih (fun b hb => hbefore b (List.mem_cons_of_mem _ hb))]
        rfl
  have hframe : ∀ a ∈ frameSentence, a ≠ '\n' := by
    rintro a ha rfl
    cases frameSentence_line ha
  rw [removeSentence_frame, hinside _ _ hframe, trim_frame] at hextract
  refine ⟨_, hextract, fun c hspace hline hsentence hstop => ?_⟩
  rw [trimEnd, List.count_reverse, count_dropWhile hspace, List.count_reverse, List.count_cons_of_ne hline.symm,
    count_collapseNewlines hline, count_removeSentence hsentence hstop]

theorem extract_format_ne (s : Text) : extractCompactionBody (formatCompactionContent s) ≠ collapseNewlines false (trim s) := by
  obtain ⟨i, hi, hmarker, y, hextract, hcount⟩ := extract_format_frame s
  intro hsame
  rw [hextract] at hsame
  have hsides : ∀ c, isWhitespace c = false → c ≠ '\n' → c ∉ sentence → c ≠ '。' →
      frameSentence.count c + ((framed s).take i).count c = (trim s).count c := by
    intro c hspace hline hsentence hstop
    rw [← hcount c hspace hline hsentence hstop, ← List.count_append, hsame, count_collapseNewlines hline]
  have htake : i ≤ (trim s).length → (framed s).take i = (trim s).take i := fun hle => by
    rw [framed, List.append_assoc, List.append_assoc, List.take_append_of_le_length hle]
  rcases Nat.lt_or_ge i (trim s).length with hlt | hge
  · -- the summary quotes the marker: a hyphen of it is lost
    have hhyphen := hsides '-' (by decide) (by decide) (by decide) (by decide)
    have hnone : frameSentence.count '-' = 0 := by decide
    obtain ⟨pattern, hpattern⟩ : ∃ pattern, endMarker = '-' :: pattern := ⟨endMarker.tail, by decide⟩
    have hlost : 0 < ((trim s).drop i).count '-' := by
      obtain ⟨a, rest, hrest⟩ : ∃ a rest, (trim s).drop i = a :: rest :=
        List.exists_cons_of_ne_nil (by rw [Ne, List.drop_eq_nil_iff]; omega)
      obtain ⟨z, hz⟩ := hmarker
      rw [framed, List.append_assoc, List.append_assoc, List.drop_append_of_le_length hlt.le, hrest, hpattern] at hz
      rw [hrest, ← (List.cons.inj hz).1, List.count_cons_self]
      exact Nat.succ_pos _
    have hall := congrArg (List.count '-') (List.take_append_drop i (trim s))
    rw [List.count_append] at hall
    rw [htake hlt.le] at hhyphen
    omega
  · -- the frame brings its own character
    have hframe := hsides '它' (by decide) (by decide) (by decide) (by decide)
    have hone : frameSentence.count '它' = 1 := by decide
    have hall : (trim s).count '它' ≤ ((framed s).take i).count '它' := by
      have hprefix : trim s <+: (framed s).take i := by
        rw [List.prefix_take_iff, framed, List.append_assoc, List.append_assoc]
        exact ⟨List.prefix_append _ _, hge⟩
      exact hprefix.sublist.count_le _
    omega

end RoundTrip

section HandedOn

variable {entries : List ThreadEntry} {n : Nat} {selection : CompactionSelection}

theorem infix_intercalate {sep : Text} {l : List Text} {x : Text} (h : x ∈ l) : x <:+: sep.intercalate l := by
  induction l with
  | nil => cases h
  | cons a l ih =>
      cases l with
      | nil =>
          have hone : sep.intercalate [a] = a := List.intercalate_singleton
          exact ⟨[], [], by simp [hone, List.mem_singleton.mp h]⟩
      | cons b l =>
          rw [List.intercalate_cons_of_ne_nil (by simp)]
          rcases List.mem_cons.mp h with rfl | h
          · exact ⟨[], sep ++ sep.intercalate (b :: l), by simp⟩
          · exact (ih h).trans (List.suffix_append _ _).isInfix

/-- A compaction that is compacted again hands on the frame with its summary. -/
theorem previousSummary_frame {e : ThreadEntry} {s : Text} (h : buildCompactionSelection entries n = some selection)
    (he : e ∈ entries.take n) (hkind : e.kind = .compaction) (hcontent : e.message.content = formatCompactionContent s) :
    frameSentence <:+: selection.previousSummary := by
  obtain ⟨i, -, -, y, hextract, -⟩ := extract_format_frame s
  rw [buildCompactionSelection] at h
  dsimp only at h
  split_ifs at h
  cases h
  have hinfix : frameSentence <:+: extractCompactionBody e.message.content := by
    rw [hcontent, hextract]
    exact (List.prefix_append _ _).isInfix
  refine hinfix.trans (infix_intercalate (List.mem_filter.mpr ⟨List.mem_map.mpr ⟨e, List.mem_filter.mpr ⟨he, ?_⟩, rfl⟩, ?_⟩))
  · simpa using hkind
  · obtain ⟨a, more, hmore⟩ : ∃ a more, frameSentence = a :: more := ⟨'早', frameSentence.tail, by decide⟩
    rw [hcontent, hextract, hmore]
    rfl

end HandedOn

/-- A summary never comes back alone, and every compaction that takes an earlier one into its
prefix hands its frame on. -/
theorem roundTrip_never (s : Text) :
    extractCompactionBody (formatCompactionContent s) ≠ collapseNewlines false (trim s) ∧
      ∀ entries n selection, buildCompactionSelection entries n = some selection →
        ∀ e ∈ entries.take n, e.kind = .compaction → e.message.content = formatCompactionContent s →
          frameSentence <:+: selection.previousSummary :=
  ⟨extract_format_ne s, fun _ _ _ h _ he hkind hcontent => previousSummary_frame h he hkind hcontent⟩

def compactionEntry (s : Text) : ThreadEntry :=
  ⟨"entry-1", "compaction-turn-1", .compaction, .chat .user (formatCompactionContent s) none, 0, none, none, none, none⟩

theorem extract_letter : extractCompactionBody (formatCompactionContent ['a']) = frameSentence ++ ['\n', 'a'] := by
  decide +kernel

theorem selection_letter : buildCompactionSelection [compactionEntry ['a']] 1 = some ⟨1, [], frameSentence ++ ['\n', 'a']⟩ := by
  have hextract : extractCompactionBody (compactionEntry ['a']).message.content = frameSentence ++ ['\n', 'a'] := extract_letter
  have hnonempty : (frameSentence ++ ['\n', 'a']).isEmpty = false := by decide
  have hkind : (compactionEntry ['a']).kind = .compaction := rfl
  generalize compactionEntry ['a'] = e at hextract hkind ⊢
  rw [buildCompactionSelection]
  simp only [List.take_succ_cons, List.take_zero, List.filter_cons, List.filter_nil, hkind, hextract, hnonempty, List.map_cons,
    List.map_nil, decide_true, if_true, Bool.not_false, ne_eq, not_true_eq_false, decide_false, if_false, List.eraseDups_nil,
    List.isEmpty_cons, Bool.and_false, List.intercalate_singleton, Nat.one_ne_zero, Bool.false_eq_true]

theorem roundTrip_never_letter : extractCompactionBody (formatCompactionContent ['a']) ≠ collapseNewlines false (trim ['a']) ∧
    frameSentence <:+: frameSentence ++ ['\n', 'a'] :=
  ⟨(roundTrip_never ['a']).1, (roundTrip_never ['a']).2 _ _ _ selection_letter _ List.mem_cons_self rfl rfl⟩

/-- The frame stays before the letter. -/
theorem letter_not_roundTrip : extractCompactionBody (formatCompactionContent ['a']) = frameSentence ++ ['\n', 'a'] ∧
    extractCompactionBody (formatCompactionContent ['a']) ≠ collapseNewlines false (trim ['a']) := by
  rw [extract_letter]
  exact ⟨rfl, by decide⟩

end Kross.Context
