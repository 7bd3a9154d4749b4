import WaterStructure.Formats.McFunctionMeaning

/-!
# When the two MCFunction readers agree

Without their caches both readers collect the same commands, whatever the blocks and the schedule.
The parallel reader leaves a batch out of the bounds when its commands all lie at the largest x,
because it takes its bounds for those of a batch without commands.
-/

namespace WaterStructure.McFunction

open NestedLoop

variable {blockSize : ℕ} {text : List Char} {result : ℕ → Option (Except String Batch)}
  {registry : BlockRegistry} {lineLimit : ℕ} {commands : List CuboidCommand}

/-- The blocks of a text. -/
theorem flatten_readBlocks (hblock : 0 < blockSize) {fuel : ℕ} (hfuel : text.length ≤ fuel) :
    (readBlocks blockSize fuel text).flatten = text := by
  induction fuel generalizing text with
  | zero =>
    rw [List.length_eq_zero_iff.mp (by omega : text.length = 0)]
    rfl
  | succ fuel ih =>
    rw [readBlocks]
    split_ifs with hempty
    · rw [List.isEmpty_iff.mp hempty, List.flatten_nil]
    · have hlength : 0 < text.length := by
        rw [List.length_pos_iff]
        intro hnil
        exact hempty (List.isEmpty_iff.mpr hnil)
      rw [List.flatten_cons, ih (by rw [List.length_drop]; omega), List.take_append_drop]

/-- The part up to the last newline ends with one. -/
theorem split_complete {data : List Char} (hcomplete : data.rdropWhile (· ≠ '\n') ≠ [])
    (rest : List Char) :
    lines (data ++ rest) =
      lines (data.rdropWhile (· ≠ '\n')) ++ lines (data.rtakeWhile (· ≠ '\n') ++ rest) := by
  have hlast := List.rdropWhile_last_not (fun c => decide (c ≠ '\n')) data hcomplete
  rw [lines, lines, lines, ← Lines.split_append hcomplete (by simpa using hlast),
    ← List.append_assoc, List.rdropWhile_append_rtakeWhile]

/-- The submitted batches have the lines of the text, and a line buffer that is too long means a
line that is too long. -/
theorem splitBatches_eq {lineLimit : ℕ} {blocks : List (List Char)} {carry : List Char}
    (hcarry : '\n' ∉ carry) (nextLine : ℕ) :
    match splitBatches lineLimit blocks carry nextLine with
    | .ok batches => batches.flatMap (fun batch => lines batch.1) = lines (carry ++ blocks.flatten)
    | .error _ => ∃ line ∈ lines (carry ++ blocks.flatten), line.length > lineLimit := by
  induction blocks generalizing carry nextLine with
  | nil =>
    rw [splitBatches, List.flatten_nil, List.append_nil]
    dsimp only
    split_ifs with hempty
    · rw [List.isEmpty_iff.mp hempty]
      rfl
    · rw [List.flatMap_singleton]
  | cons block rest ih =>
    -- A part of a line that is too long, with what follows it.
    have hlong (part : List Char) (hpart : '\n' ∉ part) (hlength : part.length > lineLimit)
        (more : List Char) : ∃ line ∈ lines (part ++ more), line.length > lineLimit := by
      have hne : part ≠ [] := List.length_pos_iff.mp (by omega)
      obtain ⟨line, hline, hle⟩ := Lines.exists_line hpart hne more
      exact ⟨line, hline, by omega⟩
    rw [splitBatches, List.flatten_cons, ← List.append_assoc]
    by_cases hbuffer : carry.length > lineLimit
    · rw [if_pos hbuffer, List.append_assoc]
      exact hlong carry hcarry hbuffer _
    · rw [if_neg hbuffer]
      dsimp only
      have htail : '\n' ∉ (carry ++ block).rtakeWhile (· ≠ '\n') := by
        intro hmem
        have hkept := List.mem_rtakeWhile_imp hmem
        simp at hkept
      by_cases hcomplete : (carry ++ block).rdropWhile (· ≠ '\n') = []
      · rw [if_pos (List.isEmpty_iff.mpr hcomplete)]
        have hdata : '\n' ∉ carry ++ block := by
          intro hmem
          have hall := List.rdropWhile_eq_nil_iff.mp hcomplete _ hmem
          simp at hall
        split
        case h_1 batches hsplit =>
          obtain ⟨_, hsplit⟩ := else_of_ok hsplit
          have hrest := ih hdata nextLine
          rw [hsplit] at hrest
          exact hrest
        case h_2 error hsplit =>
          split_ifs at hsplit with hlength
          · exact hlong _ hdata hlength _
          · have hrest := ih hdata nextLine
            rw [hsplit] at hrest
            exact hrest
      · rw [if_neg (by rwa [List.isEmpty_iff]), split_complete hcomplete]
        by_cases hlength : ((carry ++ block).rtakeWhile (· ≠ '\n')).length > lineLimit
        · rw [if_pos hlength]
          obtain ⟨line, hline, hline'⟩ := hlong _ htail hlength rest.flatten
          exact ⟨line, List.mem_append_right _ hline, hline'⟩
        · rw [if_neg hlength]
          have hrest := ih htail
            (nextLine + ((carry ++ block).rdropWhile (· ≠ '\n')).count '\n')
          cases hsplit : splitBatches lineLimit rest ((carry ++ block).rtakeWhile (· ≠ '\n'))
              (nextLine + ((carry ++ block).rdropWhile (· ≠ '\n')).count '\n') with
          | error error =>
            rw [hsplit] at hrest
            obtain ⟨line, hline, hline'⟩ := hrest
            exact ⟨line, List.mem_append_right _ hline, hline'⟩
          | ok batches =>
            rw [hsplit] at hrest
            dsimp only at hrest
            dsimp only [Except.map]
            rw [List.flatMap_cons, hrest]

/-- The commands of the batches whose bounds count. -/
def keptCommands (parts : List (List CuboidCommand)) : List CuboidCommand :=
  (parts.filter fun commands => (boundsOf commands).minX ≠ int32Max).flatten

/-- The bounds of the parallel reader. -/
theorem foldl_includeBounds {bounds : Bounds} (h : bounds.Valid)
    (parts : List (List CuboidCommand)) :
    parts.foldl (fun bounds commands => bounds.includeBounds (boundsOf commands)) bounds =
      (keptCommands parts).foldl Bounds.include bounds := by
  induction parts generalizing bounds with
  | nil => rfl
  | cons commands rest ih =>
    rw [List.foldl_cons, Bounds.includeBounds, keptCommands, List.filter_cons]
    by_cases hempty : (boundsOf commands).minX = int32Max
    · rw [if_pos hempty, if_neg (by simpa using hempty)]
      exact ih h
    · rw [if_neg hempty, if_pos (by simpa using hempty), List.flatten_cons, List.foldl_append,
        h.merge_boundsOf]
      exact ih (h.foldl_include commands)

/-- Taking the result of a batch, without error texts. -/
def takeBatch (total : Batch) (result : Option Batch) : Option Batch :=
  result.bind fun batch =>
    if total.commands.length > kMaxCommands - batch.commands.length then none
    else
      some { commands := total.commands ++ batch.commands
             bounds := total.bounds.includeBounds batch.bounds }

/-- What a worker makes of a batch. -/
def batchResult (registry : BlockRegistry) (lineLimit : ℕ) (data : List Char × ℕ) : Option Batch :=
  (commandsOf registry lineLimit (lines data.1)).bind (addAll {})

/-- Every schedule gives the results of the batches. -/
theorem perform_parseBatch {registry : BlockRegistry} {lineLimit : ℕ}
    {batches : List (List Char × ℕ)} {schedule : List (ℕ × ℕ)}
    (hschedule : (schedule.map Prod.snd).Perm (List.range batches.length)) {index : ℕ}
    (hindex : index < batches.length) :
    (Workers.perform (parseBatch registry lineLimit) batches schedule (fun _ => ∅) (fun _ => none)
        index).map Except.toOption =
      batches[index]?.map (batchResult registry lineLimit) := by
  have hparse (data : List Char × ℕ) (cache : RuntimeCache) (hcache : CacheSound registry cache) :
      (parseBatch registry lineLimit data cache).2.toOption = batchResult registry lineLimit data ∧
        CacheSound registry (parseBatch registry lineLimit data cache).1 :=
    parseLines_eq hcache (Nat.zero_le _) (lines data.1) data.2
  rw [Workers.perform_eq (fun data cache hcache => (hparse data cache hcache).1)
    (fun data cache hcache => (hparse data cache hcache).2) fun _ => Memo.sound_empty _,
    if_pos ⟨hschedule.mem_iff.mpr (List.mem_range.mpr hindex), hindex⟩]

/-- Taking one result. -/
theorem toOption_consumeFront {index : ℕ} {value : Option Batch}
    (h : (result index).map Except.toOption = some value) (total : Batch) :
    (consumeFront result total index).toOption = takeBatch total value := by
  obtain ⟨found, hfound, rfl⟩ := Option.map_eq_some_iff.mp h
  rw [consumeFront, hfound]
  cases found with
  | error error => rfl
  | ok batch =>
    dsimp only
    rw [takeBatch]
    dsimp only [Except.toOption, Option.bind_some]
    by_cases hcount : total.commands.length > kMaxCommands - batch.commands.length
    · rw [if_pos hcount, if_pos hcount]
    · rw [if_neg hcount, if_neg hcount]

/-- Taking all results, without error texts. -/
theorem toOption_consume {batches : List (List Char × ℕ)}
    (hresult : ∀ index < batches.length, (result index).map Except.toOption =
      batches[index]?.map (batchResult registry lineLimit)) (total : Batch) :
    ((List.range batches.length).foldlM (consumeFront result) total).toOption =
      batches.foldlM (fun total data => takeBatch total (batchResult registry lineLimit data))
        total := by
  -- The indices from the end of the batches that have been taken.
  have hrun (done rest : List (List Char × ℕ)) (hbatches : batches = done ++ rest) (total : Batch) :
      ((List.range' done.length rest.length).foldlM (consumeFront result) total).toOption =
        rest.foldlM (fun total data => takeBatch total (batchResult registry lineLimit data))
          total := by
    induction rest generalizing done total with
    | nil => rfl
    | cons data rest ih =>
      have hdata : (result done.length).map Except.toOption =
          some (batchResult registry lineLimit data) := by
        rw [hresult done.length (by rw [hbatches]; simp), hbatches]
        simp
      have hrest := ih (done ++ [data]) (by rw [hbatches]; simp)
      rw [List.length_append, List.length_singleton] at hrest
      rw [List.length_cons, List.range'_succ, List.foldlM_cons, List.foldlM_cons,
        ← toOption_consumeFront hdata]
      cases consumeFront result total done.length with
      | error error => rfl
      | ok next => exact hrest next
  rw [List.range_eq_range']
  exact hrun [] batches rfl total

/-- The commands of each batch, if no line is an error. -/
def batchCommands (registry : BlockRegistry) (lineLimit : ℕ) :
    List (List Char × ℕ) → Option (List (List CuboidCommand))
  | [] => some []
  | data :: rest =>
    (commandsOf registry lineLimit (lines data.1)).bind fun commands =>
      (batchCommands registry lineLimit rest).map (commands :: ·)

/-- The batches have the commands of their lines. -/
theorem batchCommands_flatten (registry : BlockRegistry) (lineLimit : ℕ)
    (batches : List (List Char × ℕ)) :
    (batchCommands registry lineLimit batches).map List.flatten =
      commandsOf registry lineLimit (batches.flatMap fun data => lines data.1) := by
  induction batches with
  | nil => rfl
  | cons data rest ih =>
    rw [batchCommands, List.flatMap_cons, commandsOf_append, ← ih]
    cases commandsOf registry lineLimit (lines data.1) with
    | none => rfl
    | some commands => cases batchCommands registry lineLimit rest <;> rfl

/-- The commands and bounds that the parallel reader ends up with. -/
theorem foldlM_takeBatch (batches : List (List Char × ℕ)) {total : Batch}
    (hcount : total.commands.length ≤ kMaxCommands) :
    batches.foldlM (fun total data => takeBatch total (batchResult registry lineLimit data)) total =
      (batchCommands registry lineLimit batches).bind fun parts =>
        if total.commands.length + parts.flatten.length ≤ kMaxCommands then
          some ⟨total.commands ++ parts.flatten,
            parts.foldl (fun bounds commands => bounds.includeBounds (boundsOf commands))
              total.bounds⟩
        else none := by
  induction batches generalizing total with
  | nil =>
    rw [List.foldlM_nil, batchCommands, Option.bind_some, List.flatten_nil, List.length_nil,
      if_pos (by omega), List.append_nil, List.foldl_nil]
    rfl
  | cons data rest ih =>
    rw [List.foldlM_cons, batchCommands, batchResult]
    cases commandsOf registry lineLimit (lines data.1) with
    | none => rfl
    | some commands =>
      rw [Option.bind_some, Option.bind_some, addAll, foldl_push]
      dsimp only
      rw [List.length_nil, Nat.zero_add, List.nil_append]
      by_cases hpart : commands.length ≤ kMaxCommands
      · rw [if_pos hpart, takeBatch, Option.bind_some]
        dsimp only
        by_cases htotal : total.commands.length > kMaxCommands - commands.length
        · rw [if_pos htotal]
          cases batchCommands registry lineLimit rest with
          | none => rfl
          | some parts =>
            rw [Option.map_some, Option.bind_some, List.flatten_cons, List.length_append,
              if_neg (by omega)]
            rfl
        · rw [if_neg htotal]
          have hnext : (total.commands ++ commands).length ≤ kMaxCommands := by
            rw [List.length_append]
            omega
          refine (ih hnext).trans ?_
          cases batchCommands registry lineLimit rest with
          | none => rfl
          | some parts =>
            rw [Option.map_some, Option.bind_some, Option.bind_some, List.flatten_cons,
              List.length_append, List.length_append, List.foldl_cons, List.append_assoc]
            apply if_congr _ rfl rfl
            omega
      · rw [if_neg hpart]
        cases batchCommands registry lineLimit rest with
        | none => rfl
        | some parts =>
          rw [Option.map_some, Option.bind_some, List.flatten_cons, List.length_append,
            if_neg (by omega)]
          rfl

/-- The batches have the lines of the text, and without batches some line is an error. -/
theorem commandsOf_textBatches {registry : BlockRegistry} {lineLimit blockSize : ℕ}
    (hblock : 0 < blockSize) (text : List Char) :
    commandsOf registry lineLimit (lines text) =
      (textBatches lineLimit blockSize text).toOption.bind fun batches =>
        (batchCommands registry lineLimit batches).map List.flatten := by
  have hsplit := @splitBatches_eq lineLimit (readBlocks blockSize text.length text) []
    List.not_mem_nil 1
  rw [List.nil_append, flatten_readBlocks hblock le_rfl] at hsplit
  rw [textBatches]
  cases hbatches : splitBatches lineLimit (readBlocks blockSize text.length text) [] 1 with
  | error error =>
    rw [hbatches] at hsplit
    obtain ⟨line, hline, hlong⟩ := hsplit
    exact commandsOf_of_long hline hlong
  | ok batches =>
    rw [hbatches] at hsplit
    dsimp only at hsplit
    dsimp only [Except.toOption, Option.bind_some]
    rw [batchCommands_flatten, hsplit]

/-- The schedule performs every batch once. -/
def Schedules (schedule : List (ℕ × ℕ)) (lineLimit blockSize : ℕ) (text : List Char) : Prop :=
  ∀ batches, textBatches lineLimit blockSize text = .ok batches →
    (schedule.map Prod.snd).Perm (List.range batches.length)

/-- The parallel reader, under any schedule. -/
theorem toOption_readParallel (registry : BlockRegistry) {schedule : List (ℕ × ℕ)}
    (hschedule : Schedules schedule lineLimit blockSize text) :
    (readParallel registry lineLimit blockSize schedule text).toOption =
      (textBatches lineLimit blockSize text).toOption.bind fun batches =>
        (batchCommands registry lineLimit batches).bind fun parts =>
          if parts.flatten.length ≤ kMaxCommands then
            finished parts.flatten (boundsOf (keptCommands parts))
          else none := by
  rw [readParallel]
  cases hbatches : textBatches lineLimit blockSize text with
  | error error => rfl
  | ok batches =>
    have hconsume := toOption_consume
      (fun index hindex => @perform_parseBatch registry lineLimit _ _ (hschedule batches hbatches)
        index hindex) {}
    have hfinish (result : Except String Batch) : (result >>= finishRead).toOption =
        result.toOption.bind fun batch => (finishRead batch).toOption := by
      cases result <;> rfl
    refine (hfinish _).trans ?_
    rw [hconsume, foldlM_takeBatch batches (Nat.zero_le _)]
    dsimp only [Except.toOption, Option.bind_some]
    cases batchCommands registry lineLimit batches with
    | none => rfl
    | some parts =>
      rw [Option.bind_some, Option.bind_some, foldl_includeBounds Bounds.valid_empty, List.length_nil,
        Nat.zero_add, List.nil_append]
      split
      · exact toOption_finishRead _
      · rfl

/-- The box around fewer commands is the box around all exactly when it covers all. -/
theorem boundsOf_eq_iff {kept : List CuboidCommand} (hsub : kept ⊆ commands) :
    boundsOf kept = boundsOf commands ↔
      ∀ command ∈ commands, (boundsOf kept).Covers command := by
  constructor
  · intro h command hcommand
    rw [h]
    exact covers_foldl_include {} command hcommand
  · intro h
    have hkept : (boundsOf commands).merge (boundsOf kept) = boundsOf commands := by
      rw [(valid_boundsOf commands).merge_boundsOf]
      apply foldl_include_of_covers
      intro command hcommand
      exact covers_foldl_include {} command (hsub hcommand)
    rw [← hkept, Bounds.merge_comm, (valid_boundsOf kept).merge_boundsOf]
    exact (foldl_include_of_covers h).symm

theorem keptCommands_subset (parts : List (List CuboidCommand)) :
    keptCommands parts ⊆ parts.flatten := by
  intro command hcommand
  obtain ⟨commands, hcommands, hmem⟩ := List.mem_flatten.mp hcommand
  exact List.mem_flatten.mpr ⟨commands, List.mem_of_mem_filter hcommands, hmem⟩

/-- Every command lies inside the box around the commands of the batches that count, or that box
and the box around all commands are both refused. -/
def SameBox (parts : List (List CuboidCommand)) : Prop :=
  (∀ command ∈ parts.flatten, (boundsOf (keptCommands parts)).Covers command) ∨
    (¬ (boundsOf (keptCommands parts)).Fits ∧ ¬ (boundsOf parts.flatten).Fits)

/-- The condition on a text: if its lines can be read at all, no batch that is left out of the bounds
reaches beyond them. -/
def BoundsAgree (registry : BlockRegistry) (lineLimit blockSize : ℕ) (text : List Char) : Prop :=
  ∀ batches parts, textBatches lineLimit blockSize text = .ok batches →
    batchCommands registry lineLimit batches = some parts → parts.flatten ≠ [] →
      parts.flatten.length ≤ kMaxCommands → SameBox parts

/-- Different boxes give different structures. -/
theorem finished_eq_iff (hne : commands ≠ []) (bounds bounds' : Bounds) :
    finished commands bounds = finished commands bounds' ↔
      bounds = bounds' ∨ (¬ bounds.Fits ∧ ¬ bounds'.Fits) := by
  constructor
  · intro h
    rw [finished, finished] at h
    by_cases hfits : bounds.Fits
    · by_cases hfits' : bounds'.Fits
      · rw [if_pos ⟨hne, hfits⟩, if_pos ⟨hne, hfits'⟩] at h
        obtain ⟨command, rest, rfl⟩ := List.exists_cons_of_ne_nil hne
        simp only [McFunctionStructure.ofRead, McFunctionStructure.setOffset, Option.some.injEq,
          McFunctionStructure.mk.injEq, List.map_cons, List.cons.injEq, normalize,
          CuboidCommand.mk.injEq, Size.mk.injEq] at h
        left
        obtain ⟨a, b, c, d, e, f⟩ := bounds
        obtain ⟨a', b', c', d', e', f'⟩ := bounds'
        simp only [Bounds.mk.injEq] at h ⊢
        omega
      · rw [if_pos ⟨hne, hfits⟩, if_neg fun h => hfits' h.2] at h
        cases h
    · by_cases hfits' : bounds'.Fits
      · rw [if_neg fun h => hfits h.2, if_pos ⟨hne, hfits'⟩] at h
        cases h
      · exact .inr ⟨hfits, hfits'⟩
  · rintro (rfl | ⟨hfits, hfits'⟩)
    · rfl
    · rw [finished, finished, if_neg fun h => hfits h.2, if_neg fun h => hfits' h.2]

/-- Under every schedule the parallel reader does what the sequential one does, exactly when no
batch that is left out of the bounds reaches beyond them. -/
theorem readParallel_eq_read_iff (registry : BlockRegistry) {lineLimit blockSize : ℕ}
    (hblock : 0 < blockSize) {schedule : List (ℕ × ℕ)} {text : List Char}
    (hschedule : Schedules schedule lineLimit blockSize text) :
    (readParallel registry lineLimit blockSize schedule text).toOption =
        (read registry lineLimit text).toOption ↔
      BoundsAgree registry lineLimit blockSize text := by
  rw [toOption_readParallel registry hschedule, toOption_read, commandsOf_textBatches hblock,
    BoundsAgree]
  cases hbatches : textBatches lineLimit blockSize text with
  | error error =>
    apply iff_of_true rfl
    intro batches parts h
    cases h
  | ok batches =>
    dsimp only [Except.toOption, Option.bind_some]
    cases hparts : batchCommands registry lineLimit batches with
    | none =>
      apply iff_of_true rfl
      intro batches' parts h hparts'
      cases h
      rw [hparts] at hparts'
      cases hparts'
    | some parts =>
      rw [Option.bind_some, Option.map_some, Option.bind_some]
      have hcondition : (∀ batches' parts', (Except.ok batches : Except String _) = .ok batches' →
          batchCommands registry lineLimit batches' = some parts' → parts'.flatten ≠ [] →
            parts'.flatten.length ≤ kMaxCommands → SameBox parts') ↔
          (parts.flatten ≠ [] → parts.flatten.length ≤ kMaxCommands → SameBox parts) := by
        constructor
        · intro h
          exact h batches parts rfl hparts
        · intro h batches' parts' hsame hparts'
          cases hsame
          rw [hparts] at hparts'
          cases hparts'
          exact h
      rw [hcondition]
      by_cases hcount : parts.flatten.length ≤ kMaxCommands
      · rw [if_pos hcount, if_pos hcount]
        by_cases hne : parts.flatten = []
        · apply iff_of_true
          · rw [finished, finished, if_neg fun h => h.1 hne, if_neg fun h => h.1 hne]
          · intro h
            exact absurd hne h
        · rw [finished_eq_iff hne, boundsOf_eq_iff (keptCommands_subset parts)]
          constructor
          · intro h _ _
            exact h
          · intro h
            exact h hne hcount
      · rw [if_neg hcount, if_neg hcount]
        apply iff_of_true rfl
        intro _ h
        exact absurd h hcount

/-- A registry that knows stone. -/
def stoneRegistry : BlockRegistry where
  find name _ := if name = "minecraft:stone".toList then some 1 else none
  legacyStateRuntimeId _ _ := none
  legacyRuntimeId _ _ := none
  compatibleJavaRuntimeId _ := none
  airRuntimeId := 0

/-- Two lines in two batches, the second parsed first. -/
theorem readParallel_eq_read_iff_stone :
    (readParallel stoneRegistry 40 40 [(1, 1), (0, 0)]
        "setblock 0 0 0 minecraft:stone\nsetblock ~1 0 0 minecraft:stone\n".toList).toOption =
      (read stoneRegistry 40
        "setblock 0 0 0 minecraft:stone\nsetblock ~1 0 0 minecraft:stone\n".toList).toOption ↔
      BoundsAgree stoneRegistry 40 40
        "setblock 0 0 0 minecraft:stone\nsetblock ~1 0 0 minecraft:stone\n".toList := by
  apply readParallel_eq_read_iff stoneRegistry (by decide)
  intro batches hbatches
  have htext : textBatches 40 40
      "setblock 0 0 0 minecraft:stone\nsetblock ~1 0 0 minecraft:stone\n".toList =
        .ok [("setblock 0 0 0 minecraft:stone\n".toList, 1),
          ("setblock ~1 0 0 minecraft:stone\n".toList, 2)] := rfl
  rw [htext] at hbatches
  cases hbatches
  decide

/-- A single block at the largest x: the sequential reader has a structure, the parallel one none. -/
theorem readParallel_loses_largest_x :
    Schedules [(0, 0)] kMaxLineBytes kReadBlockSize
        "setblock 2147483647 0 0 minecraft:stone".toList ∧
      (read stoneRegistry kMaxLineBytes
        "setblock 2147483647 0 0 minecraft:stone".toList).toOption.isSome = true ∧
      (readParallel stoneRegistry kMaxLineBytes kReadBlockSize [(0, 0)]
        "setblock 2147483647 0 0 minecraft:stone".toList).toOption.isSome = false := by
  refine ⟨?_, by decide, by decide⟩
  intro batches hbatches
  have htext : textBatches kMaxLineBytes kReadBlockSize
      "setblock 2147483647 0 0 minecraft:stone".toList =
        .ok [("setblock 2147483647 0 0 minecraft:stone".toList, 1)] := rfl
  rw [htext] at hbatches
  cases hbatches
  decide

end WaterStructure.McFunction
