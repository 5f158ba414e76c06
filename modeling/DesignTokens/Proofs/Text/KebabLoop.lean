import DesignTokens.Proofs.Text.Kebab
import Mathlib.Data.List.Chain
import Mathlib.Data.List.TakeWhile
import Mathlib.Logic.Relation

set_option autoImplicit false

/-! # Kebab case, character by character

`kebab` reads a name word by word, and how long a word is depends on the run of capitals it
stands in and on what follows the run. What it writes for a character depends on the two
neighbours of the character only (`kebabAt`): the small letter, after a dash if a word opens
there.

`KebabLoop` is the reading as a loop with turns. Two things hold after every turn
(`KebabLoop.Local`). What is written belongs to the characters that were read, and a capital
that is read next opens a word: a run is left early only before its last capital, and only if a
small letter follows that.
-/

namespace DesignTokens

/-- A word of a name opens at a place: a capital that is not the first character, and that
comes after no capital or before a small letter. -/
def opensWord (cs : List Char) (i : Nat) : Bool :=
  0 < i && cs[i]?.any isCapital && (!cs[i - 1]?.any isCapital || cs[i + 1]?.any isSmall)

/-- What kebab case makes of the character at a place. -/
def kebabAt (cs : List Char) (i : Nat) : List Char :=
  (if opensWord cs i then ['-'] else []) ++ cs[i]?.toList.map lowerChar

/-! ## Words -/

/-- A word of capitals and what follows it. The word ends with the run of capitals, which no
small letter follows if the word has two characters, or before the last capital of the run,
which a small letter follows. -/
structure IsWord (word rest : List Char) : Prop where
  nonempty : word ≠ []
  capitals : ∀ c ∈ word, isCapital c = true
  followed : (rest.head?.any isCapital = false ∧
      (1 < word.length → rest.head?.any isSmall = false)) ∨
    (rest.head?.any isCapital = true ∧ rest[1]?.any isSmall = true)

theorem isCapital_eq_false_of_isSmall {c : Char} (h : isSmall c = true) :
    isCapital c = false := by
  simp only [isSmall, Bool.and_eq_true, decide_eq_true_eq, Char.le_def] at h
  simp only [isCapital, Bool.and_eq_false_iff, decide_eq_false_iff_not, Char.le_def]
  right
  intro hmost
  exact absurd (UInt32.le_trans h.1 hmost) (by decide)

theorem isSmall_eq_false_of_isCapital {c : Char} (h : isCapital c = true) :
    isSmall c = false := by
  refine Bool.eq_false_iff.mpr fun hsmall => ?_
  rw [isCapital_eq_false_of_isSmall hsmall] at h
  exact absurd h (by decide)

theorem IsWord.head_isCapital {word rest : List Char} (h : IsWord word rest) :
    (word ++ rest).head?.any isCapital = true := by
  cases word with
  | nil => exact absurd rfl h.nonempty
  | cons c word => exact h.capitals c List.mem_cons_self

/-- Inside a word, no small letter follows. -/
theorem IsWord.not_small_of_inside {word rest : List Char} (h : IsWord word rest) {i : Nat}
    (hi : i + 1 < word.length) : (word ++ rest)[i + 1 + 1]?.any isSmall = false := by
  by_cases hnext : i + 1 + 1 < word.length
  · rw [List.getElem?_append_left hnext, List.getElem?_eq_getElem hnext]
    exact isSmall_eq_false_of_isCapital (h.capitals _ (List.getElem_mem hnext))
  · have hend : i + 1 + 1 = word.length := by omega
    rw [hend, List.getElem?_append_right (Nat.le_refl _), Nat.sub_self, ← List.head?_eq_getElem?]
    obtain ⟨-, hother⟩ | ⟨hcapital, -⟩ := h.followed
    · exact hother (by omega)
    · obtain ⟨c, hc, hcapital⟩ := (Option.any_eq_true _ _).mp hcapital
      rw [hc]
      exact isSmall_eq_false_of_isCapital hcapital

theorem capitalsInWord_of_small {rest : List Char} (h : rest.head?.any isSmall = true)
    (run : Nat) : capitalsInWord run rest = if 2 ≤ run then run - 1 else 1 := by
  obtain ⟨c, hc, hsmall⟩ := (Option.any_eq_true _ _).mp h
  rw [capitalsInWord, hc]
  exact if_pos hsmall

theorem capitalsInWord_of_not_small {rest : List Char} (h : rest.head?.any isSmall = false)
    (run : Nat) : capitalsInWord run rest = run := by
  unfold capitalsInWord
  cases hc : rest.head? with
  | none => rfl
  | some c =>
      rw [hc] at h
      exact if_neg (by simpa using h)

theorem head?_dropWhile_isCapital (cs : List Char) :
    (cs.dropWhile isCapital).head?.any isCapital = false := by
  have h := List.head?_dropWhile_not isCapital cs
  cases hhead : (cs.dropWhile isCapital).head? with
  | none => rfl
  | some c =>
      rw [hhead] at h
      exact h

/-- A text that starts with a capital starts with a word. -/
theorem exists_word {c : Char} (hc : isCapital c = true) (cs : List Char) :
    ∃ word rest, IsWord word rest ∧ c :: cs = word ++ rest ∧
      capitalsInWord ((cs.takeWhile isCapital).length + 1) (cs.dropWhile isCapital) =
        word.length := by
  have hsplit : cs.takeWhile isCapital ++ cs.dropWhile isCapital = cs :=
    List.takeWhile_append_dropWhile
  have hcapitals : ∀ d ∈ cs.takeWhile isCapital, isCapital d = true := fun d hd =>
    List.mem_takeWhile_imp hd
  have hends := head?_dropWhile_isCapital cs
  generalize cs.takeWhile isCapital = run at hsplit hcapitals ⊢
  generalize cs.dropWhile isCapital = rest at hsplit hends ⊢
  subst hsplit
  by_cases hsmall : rest.head?.any isSmall = true
  · rw [capitalsInWord_of_small hsmall]
    obtain rfl | ⟨front, last, rfl⟩ := List.eq_nil_or_concat' run
    · exact ⟨[c], rest, ⟨by simp, by simpa using hc, .inl ⟨hends, by simp⟩⟩, rfl, rfl⟩
    · -- the last capital opens the next word
      have hlast : isCapital last = true := hcapitals last (by simp)
      refine ⟨c :: front, last :: rest, ⟨by simp, ?_, .inr ⟨by simpa using hlast, ?_⟩⟩, by simp,
        by simp⟩
      · exact List.forall_mem_cons.mpr
          ⟨hc, fun d hd => hcapitals d (List.mem_append_left _ hd)⟩
      · rw [List.getElem?_cons_succ, ← List.head?_eq_getElem?, hsmall]
  · have hother : rest.head?.any isSmall = false := Bool.eq_false_iff.mpr hsmall
    rw [capitalsInWord_of_not_small hother]
    exact ⟨c :: run, rest, ⟨by simp, List.forall_mem_cons.mpr ⟨hc, hcapitals⟩,
      .inl ⟨hends, fun _ => hother⟩⟩, rfl, rfl⟩

/-! ## Places of a word -/

/-- Before a capital that is read next a word opens, unless it is the first character: what was
read does not end with a capital, or a small letter follows. -/
theorem opensWord_append {read left : List Char} (hread : read ≠ [])
    (hcapital : left.head?.any isCapital = true)
    (hbeside : read.getLast?.any isCapital = false ∨ left[1]?.any isSmall = true) :
    opensWord (read ++ left) read.length = true := by
  have hpos : 0 < read.length := List.length_pos_iff.mpr hread
  have hat : (read ++ left)[read.length]? = left.head? := by
    rw [List.getElem?_append_right (Nat.le_refl _), Nat.sub_self, List.head?_eq_getElem?]
  have hbefore : (read ++ left)[read.length - 1]? = read.getLast? := by
    rw [List.getElem?_append_left (by omega), List.getLast?_eq_getElem?]
  have hafter : (read ++ left)[read.length + 1]? = left[1]? := by
    rw [List.getElem?_append_right (by omega), Nat.add_sub_cancel_left]
  rw [opensWord, hat, hbefore, hafter, hcapital]
  obtain hlast | hsmall := hbeside
  · simp [hpos, hlast]
  · simp [hpos, hsmall]

/-- No word opens inside a word. -/
theorem opensWord_inside {read word rest : List Char} (hword : IsWord word rest) {i : Nat}
    (hi : i + 1 < word.length) :
    opensWord (read ++ (word ++ rest)) (read.length + (i + 1)) = false := by
  have hbefore : (read ++ (word ++ rest))[read.length + (i + 1) - 1]? = some word[i] := by
    rw [Nat.add_sub_assoc (by omega), List.getElem?_append_right (by omega),
      Nat.add_sub_cancel_left, Nat.add_sub_cancel, List.getElem?_append_left (by omega),
      List.getElem?_eq_getElem]
  have hcapital : isCapital word[i] = true := hword.capitals _ (List.getElem_mem _)
  have hafter : (read ++ (word ++ rest))[read.length + (i + 1) + 1]?.any isSmall = false := by
    rw [Nat.add_assoc, List.getElem?_append_right (by omega), Nat.add_sub_cancel_left]
    exact hword.not_small_of_inside hi
  rw [opensWord, hbefore, hafter]
  simp [hcapital]

theorem flatMap_range_getElem? (f : Char → Char) (cs : List Char) :
    (List.range cs.length).flatMap (fun i => cs[i]?.toList.map f) = cs.map f := by
  induction cs with
  | nil => rfl
  | cons c cs ih =>
      rw [List.length_cons, List.range_succ_eq_map, List.flatMap_cons, List.flatMap_map]
      simpa using ih

/-- A character that is no capital is written as it is. -/
theorem kebabAt_of_not_capital {read left : List Char} {c : Char} (hc : isCapital c = false) :
    kebabAt (read ++ c :: left) read.length = [c] := by
  have hat : (read ++ c :: left)[read.length]? = some c := by
    rw [List.getElem?_append_right (Nat.le_refl _), Nat.sub_self, List.getElem?_cons_zero]
  have hopens : opensWord (read ++ c :: left) read.length = false := by
    simp [opensWord, hc]
  have hlower : lowerChar c = c := if_neg (by simp [hc])
  rw [kebabAt, hopens, hat]
  simp [hlower]

/-- The characters of a word, at their places: the small letters, after one dash if the word is
not the first. -/
theorem flatMap_kebabAt_word {read word rest : List Char} (hword : IsWord word rest)
    (hopens : read ≠ [] → opensWord (read ++ (word ++ rest)) read.length = true) :
    (List.range word.length).flatMap
        (fun i => kebabAt (read ++ (word ++ rest)) (read.length + i)) =
      (if read.isEmpty then [] else ['-']) ++ word.map lowerChar := by
  have hchar : ∀ i < word.length, (read ++ (word ++ rest))[read.length + i]? = word[i]? := by
    intro i hi
    rw [List.getElem?_append_right (by omega), Nat.add_sub_cancel_left,
      List.getElem?_append_left hi]
  have hinside : ∀ i, i + 1 < word.length →
      kebabAt (read ++ (word ++ rest)) (read.length + (i + 1)) =
        word[i + 1]?.toList.map lowerChar := by
    intro i hi
    rw [kebabAt, opensWord_inside hword hi, hchar _ hi]
    rfl
  have hfirst : opensWord (read ++ (word ++ rest)) read.length = !read.isEmpty := by
    cases read with
    | nil => rfl
    | cons c read => exact hopens (by simp)
  cases word with
  | nil => exact absurd rfl hword.nonempty
  | cons c word =>
      have hlater : (List.range word.length).flatMap
            (fun i => kebabAt (read ++ (c :: word ++ rest)) (read.length + (i + 1))) =
          word.map lowerChar := by
        rw [← flatMap_range_getElem? lowerChar word]
        refine List.flatMap_congr fun i hi => ?_
        rw [hinside i (by simpa using hi), List.getElem?_cons_succ]
      rw [List.length_cons, List.range_succ_eq_map, List.flatMap_cons, List.flatMap_map, hlater,
        kebabAt, hchar 0 (by simp), Nat.add_zero, hfirst]
      cases read <;> rfl

/-! ## The loop -/

/-- The state of the loop that writes a name in kebab case: the characters that were read, those
that are left, and what is written. -/
structure KebabLoop where
  read : List Char
  left : List Char
  written : List Char

namespace KebabLoop

/-- Nothing is read. -/
def start (cs : List Char) : KebabLoop := ⟨[], cs, []⟩

/-- A turn of the loop writes a character that is no capital as it is, or a word of capitals in
small letters, after a dash unless nothing was read before. -/
inductive Turn : KebabLoop → KebabLoop → Prop
  | plain {read cs written : List Char} {c : Char} (hc : isCapital c = false) :
      Turn ⟨read, c :: cs, written⟩ ⟨read ++ [c], cs, written ++ [c]⟩
  | word {read cs written : List Char} {c : Char} {size : Nat} (hc : isCapital c = true)
      (hsize : capitalsInWord ((cs.takeWhile isCapital).length + 1) (cs.dropWhile isCapital) =
        size) :
      Turn ⟨read, c :: cs, written⟩
        ⟨read ++ (c :: cs).take size, (c :: cs).drop size,
          written ++ (if read.isEmpty then [] else ['-']) ++
            ((c :: cs).take size).map lowerChar⟩

/-- Any number of turns. -/
abbrev Run : KebabLoop → KebabLoop → Prop := Relation.ReflTransGen Turn

/-- What the loop will have written in the end. -/
def output (s : KebabLoop) : List Char := s.written ++ kebabChars s.read.isEmpty s.left

variable {s s' : KebabLoop} {cs : List Char}

/-- A turn reads one plain character or one word. -/
theorem Turn.plain_or_word (h : Turn s s') :
    (∃ c, isCapital c = false ∧ s.left = c :: s'.left ∧ s'.read = s.read ++ [c] ∧
      s'.written = s.written ++ [c]) ∨
    ∃ word, IsWord word s'.left ∧ s.left = word ++ s'.left ∧ s'.read = s.read ++ word ∧
      s'.written = s.written ++ (if s.read.isEmpty then [] else ['-']) ++
        word.map lowerChar := by
  cases h with
  | @plain read cs written c hc => exact .inl ⟨c, hc, rfl, rfl, rfl⟩
  | @word read cs written c size hc hsize =>
      obtain ⟨word, rest, hword, hleft, hlength⟩ := exists_word hc cs
      obtain rfl : word.length = size := by rw [← hlength, hsize]
      refine .inr ⟨word, ?_⟩
      rw [hleft, List.take_left, List.drop_left]
      exact ⟨hword, rfl, rfl, rfl⟩

/-- A turn reads at least one character. -/
theorem Turn.length_left_lt (h : Turn s s') : s'.left.length < s.left.length := by
  obtain ⟨c, -, hleft, -⟩ | ⟨word, hword, hleft, -⟩ := h.plain_or_word
  · simp [hleft]
  · have hpos : 0 < word.length := List.length_pos_iff.mpr hword.nonempty
    rw [hleft, List.length_append]
    omega

/-- No character is lost. -/
theorem Turn.read_append_left (h : Turn s s') : s'.read ++ s'.left = s.read ++ s.left := by
  obtain ⟨c, -, hleft, hread, -⟩ | ⟨word, -, hleft, hread, -⟩ := h.plain_or_word
  · rw [hread, hleft, List.append_assoc, List.singleton_append]
  · rw [hread, hleft, List.append_assoc]

theorem Turn.output_eq (h : Turn s s') : s'.output = s.output := by
  cases h with
  | @plain read cs written c hc =>
      have hrest : kebabChars read.isEmpty (c :: cs) = c :: kebabChars false cs := by
        rw [kebabChars, if_neg (by simp [hc])]
      have hread : (read ++ [c]).isEmpty = false := by simp
      simp only [output, hread, hrest, List.append_assoc, List.singleton_append]
  | @word read cs written c size hc hsize =>
      have hpos : 0 < size := hsize ▸ capitalsInWord_pos (by omega) _
      have hread : (read ++ (c :: cs).take size).isEmpty = false := by
        cases size with
        | zero => omega
        | succ size => simp
      have hrest : kebabChars read.isEmpty (c :: cs) =
          (if read.isEmpty then [] else ['-']) ++ ((c :: cs).take size).map lowerChar ++
            kebabChars false ((c :: cs).drop size) := by
        subst hsize
        rw [kebabChars, if_pos hc]
      simp only [output, hread, hrest, List.append_assoc]

/-- Characters that are left give another turn. -/
theorem exists_turn (h : s.left ≠ []) : ∃ s', Turn s s' := by
  obtain ⟨read, left, written⟩ := s
  cases left with
  | nil => exact absurd rfl h
  | cons c cs =>
      cases hc : isCapital c with
      | false => exact ⟨_, .plain hc⟩
      | true => exact ⟨_, .word hc rfl⟩

/-- A loop takes no more turns than there are characters left. -/
theorem length_le {states : List KebabLoop} (hchain : (s :: states).IsChain Turn) :
    states.length ≤ s.left.length := by
  induction states generalizing s with
  | nil => exact Nat.zero_le _
  | cons next states ih =>
      obtain ⟨hturn, hrest⟩ := List.isChain_cons_cons.mp hchain
      have hless := hturn.length_left_lt
      have hlength := ih hrest
      rw [List.length_cons]
      omega

/-! ## What the loop keeps -/

/-- What is written belongs to the characters read, place by place, and a capital that is read
next opens a word, unless it is the first character. -/
structure Local (s : KebabLoop) : Prop where
  written : s.written = (List.range s.read.length).flatMap (kebabAt (s.read ++ s.left))
  opens : s.read ≠ [] → s.left.head?.any isCapital = true →
    opensWord (s.read ++ s.left) s.read.length = true

theorem local_start (cs : List Char) : (start cs).Local := ⟨rfl, fun h => absurd rfl h⟩

theorem Turn.local (hturn : Turn s s') (h : s.Local) : s'.Local := by
  have hwritten : ∀ n, s'.read.length = s.read.length + n →
      (List.range s'.read.length).flatMap (kebabAt (s'.read ++ s'.left)) =
        s.written ++ (List.range n).flatMap
          (fun i => kebabAt (s.read ++ s.left) (s.read.length + i)) := by
    intro n hlength
    rw [hturn.read_append_left, hlength, List.range_add, List.flatMap_append, List.flatMap_map,
      ← h.written]
  obtain ⟨c, hc, hleft, hread, hnew⟩ | ⟨word, hword, hleft, hread, hnew⟩ := hturn.plain_or_word
  · constructor
    · rw [hwritten 1 (by simp [hread]), hnew, hleft]
      simp [List.range_succ, kebabAt_of_not_capital hc]
    · intro _ hcapital
      refine opensWord_append (by simp [hread]) hcapital (.inl ?_)
      simp [hread, hc]
  · constructor
    · have hopens : s.read ≠ [] →
          opensWord (s.read ++ (word ++ s'.left)) s.read.length = true := by
        intro hsome
        rw [← hleft]
        exact h.opens hsome (hleft ▸ hword.head_isCapital)
      rw [hwritten word.length (by simp [hread]), hnew, hleft, flatMap_kebabAt_word hword hopens,
        List.append_assoc]
    · intro _ hcapital
      refine opensWord_append ?_ hcapital (.inr ?_)
      · rw [hread]
        exact List.append_ne_nil_of_right_ne_nil _ hword.nonempty
      · obtain ⟨hother, -⟩ | ⟨-, hsmall⟩ := hword.followed
        · rw [hother] at hcapital
          exact absurd hcapital (by decide)
        · exact hsmall

/-- What holds of every state the loop comes to. -/
theorem Run.keeps (hrun : Run (start cs) s) :
    s.Local ∧ s.read ++ s.left = cs ∧ s.output = kebabChars true cs := by
  induction hrun with
  | refl => exact ⟨local_start cs, rfl, rfl⟩
  | tail _ hturn ih =>
      obtain ⟨hlocal, hread, houtput⟩ := ih
      exact ⟨hturn.local hlocal, hturn.read_append_left.trans hread,
        hturn.output_eq.trans houtput⟩

/-- With nothing left, the loop has written the name in kebab case. -/
theorem Run.eq_end (hrun : Run (start cs) s) (hleft : s.left = []) :
    s = ⟨cs, [], kebabChars true cs⟩ := by
  obtain ⟨-, hread, houtput⟩ := hrun.keeps
  rw [hleft, List.append_nil] at hread
  rw [output, hleft, kebabChars, List.append_nil] at houtput
  rw [← houtput, ← hread, ← hleft]

theorem exists_run (s : KebabLoop) : ∃ s', Run s s' ∧ s'.left = [] := by
  generalize hn : s.left.length = n
  induction n using Nat.strong_induction_on generalizing s with
  | _ n ih =>
      by_cases hleft : s.left = []
      · exact ⟨s, .refl, hleft⟩
      · obtain ⟨next, hturn⟩ := exists_turn hleft
        obtain ⟨s', hrun, hend⟩ := ih _ (hn ▸ hturn.length_left_lt) next rfl
        exact ⟨s', .head hturn hrun, hend⟩

end KebabLoop

/-- Kebab case is what `kebabAt` makes of the characters, one after another. -/
theorem kebabChars_eq_flatMap (cs : List Char) :
    kebabChars true cs = (List.range cs.length).flatMap (kebabAt cs) := by
  obtain ⟨s, hrun, hleft⟩ := KebabLoop.exists_run (.start cs)
  have hwritten := hrun.keeps.1.written
  rwa [hrun.eq_end hleft, List.append_nil] at hwritten

theorem toList_kebab (name : String) : (kebab name).toList = kebabChars true name.toList :=
  String.toList_ofList

/-- Kebab case has no capitals. -/
theorem isCapital_of_mem_kebab {name : String} {c : Char} (h : c ∈ (kebab name).toList) :
    isCapital c = false := by
  rw [toList_kebab, kebabChars_eq_flatMap] at h
  obtain ⟨i, -, hc⟩ := List.mem_flatMap.mp h
  obtain hdash | hletter := List.mem_append.mp hc
  · split_ifs at hdash
    · rw [List.mem_singleton.mp hdash]
      decide
    · exact absurd hdash List.not_mem_nil
  · obtain ⟨d, -, rfl⟩ := List.mem_map.mp hletter
    exact isCapital_lowerChar d

/-- **Kebab case is local.** The loop takes at most one turn per character of the name. In every
state it comes to there is another turn, or all is read and `kebab name` is written. That is the
small letter of each character, with a dash where a word opens. So kebab case has no capitals,
is kept by kebab case, and differs from the name in small letters by its dashes only. -/
theorem kebab_is_local (name : String) :
    (∀ states, (KebabLoop.start name.toList :: states).IsChain KebabLoop.Turn →
      states.length ≤ name.length) ∧
    (∀ s, KebabLoop.Run (.start name.toList) s →
      (∃ s', KebabLoop.Turn s s') ∨ s = ⟨name.toList, [], (kebab name).toList⟩) ∧
    (kebab name).toList = (List.range name.length).flatMap (kebabAt name.toList) ∧
    (∀ c ∈ (kebab name).toList, isCapital c = false) ∧
    kebab (kebab name) = kebab name ∧
    (kebab name).toList.filter (fun c => c ≠ '-') =
      (name.toList.map lowerChar).filter (fun c => c ≠ '-') := by
  refine ⟨fun states hchain => ?_, fun s hrun => ?_, ?_, fun c => isCapital_of_mem_kebab, ?_, ?_⟩
  · rw [← String.length_toList]
    exact KebabLoop.length_le hchain
  · by_cases hleft : s.left = []
    · exact .inr (by rw [hrun.eq_end hleft, toList_kebab])
    · exact .inl (KebabLoop.exists_turn hleft)
  · rw [toList_kebab, kebabChars_eq_flatMap, String.length_toList]
  · exact kebab_eq_self fun c => isCapital_of_mem_kebab
  · rw [toList_kebab, filter_kebabChars, filter_map_lowerChar]

/-- `HTMLColor` is read in six turns, the first of which takes four capitals. -/
theorem kebab_is_local_html :
    ∃ states, (KebabLoop.start "HTMLColor".toList :: states).IsChain KebabLoop.Turn ∧
      states.length = 6 ∧ 6 ≤ "HTMLColor".length ∧
      (∃ s', KebabLoop.Turn (.start "HTMLColor".toList) s') ∧
      kebab "HTMLColor" = "html-color" := by
  obtain ⟨hbound, hends, hplaces, -⟩ := kebab_is_local "HTMLColor"
  have hchain : [KebabLoop.start "HTMLColor".toList,
      ⟨"HTML".toList, "Color".toList, "html".toList⟩,
      ⟨"HTMLC".toList, "olor".toList, "html-c".toList⟩,
      ⟨"HTMLCo".toList, "lor".toList, "html-co".toList⟩,
      ⟨"HTMLCol".toList, "or".toList, "html-col".toList⟩,
      ⟨"HTMLColo".toList, "r".toList, "html-colo".toList⟩,
      ⟨"HTMLColor".toList, [], "html-color".toList⟩].IsChain KebabLoop.Turn := by
    refine .cons_cons (.word (by decide) rfl) (.cons_cons (.word (by decide) rfl) ?_)
    refine .cons_cons (.plain (by decide)) (.cons_cons (.plain (by decide)) ?_)
    refine .cons_cons (.plain (by decide)) (.cons_cons (.plain (by decide)) ?_)
    exact .singleton _
  refine ⟨_, hchain, rfl, hbound _ hchain, ?_, ?_⟩
  · refine (hends _ .refl).resolve_right fun hend => ?_
    exact absurd (congrArg KebabLoop.left hend) (by decide)
  · rw [← String.toList_inj, hplaces]
    decide

end DesignTokens
