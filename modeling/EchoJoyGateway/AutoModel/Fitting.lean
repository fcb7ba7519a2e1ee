import EchoJoyGateway.AutoModel.Context

/-!
# What the cutting functions keep within

Each of the functions that cut the view of a request keeps its own budget: the
task, the recent context and the instructions.
-/

namespace EchoJoyGateway.AutoModel

open Utf8 List

theorem TextMessage.size_eq (message : TextMessage) :
    message.size = (JSON.encodeString message.role).length +
      (JSON.encodeString message.kind.text).length +
      (JSON.encodeString message.text).length + 25 := by
  have hrole : (JSON.encodeString (ascii "role")).length = 6 := by decide
  have hkind : (JSON.encodeString (ascii "kind")).length = 6 := by decide
  have htext : (JSON.encodeString (ascii "text")).length = 6 := by decide
  rw [TextMessage.size, TextMessage.encode, JSON.length_encodeObject]
  simp only [JSON.sum_fieldLengths_cons, JSON.sum_fieldLengths_nil, length_cons, length_nil]
  omega

variable (messages : List TextMessage)

theorem length_encodeMessages :
    (encodeMessages messages).length =
      (messages.map TextMessage.size).sum + (messages.length - 1) + 2 := by
  rw [encodeMessages, JSON.length_encodeArray, length_map, map_map]
  rfl

theorem length_validHead_le (value : Text) (n : Nat) : (validHead value n).length ≤ n := by
  induction n with
  | zero => exact Nat.le_refl 0
  | succ n ih =>
    unfold validHead
    split
    · exact length_take_le _ _
    · omega

theorem length_validTail_le (value : Text) : (validTail value).length ≤ value.length := by
  induction value with
  | nil => exact Nat.le_refl 0
  | cons b rest ih =>
    unfold validTail
    split
    · exact Nat.le_refl _
    · rw [length_cons]
      omega

theorem length_clip_le (value : Text) {limit : Nat} (hlimit : truncationMark.length ≤ limit) :
    (clip value limit).length ≤ limit := by
  unfold clip
  split
  · assumption
  · have hhead := length_validHead_le value ((limit - truncationMark.length) / 2)
    have htail := length_validTail_le
      (value.drop (value.length - (limit - truncationMark.length) / 2))
    rw [length_drop] at htail
    rw [length_append, length_append]
    omega

variable {message : TextMessage} {budget : Nat}

theorem fitTextMessage_size_le {fitted : TextMessage}
    (h : fitTextMessage message budget = some fitted) : fitted.size ≤ budget := by
  obtain ⟨limit, hsearch, rfl⟩ := Option.map_eq_some_iff.mp h
  have htest := Bisect.search_sound (fun limit => decide ((message.clip limit).size ≤ budget))
    (fun n hn => by cases hn) limit hsearch
  exact of_decide_eq_true htest

theorem fitTextMessage_task {text : Text}
    (hsize : (TextMessage.mk (ascii "user") .message text).size > taskBudget) :
    ∃ fitted, fitTextMessage ⟨ascii "user", .message, text⟩ taskBudget = some fitted := by
  have hmark : truncationMark.length = 13 := rfl
  have hrole : (JSON.encodeString (ascii "user")).length = 6 := by decide
  have hkind : (JSON.encodeString MessageKind.message.text).length = 9 := by decide
  have hbudget : taskBudget = 11776 := rfl
  have hlong : truncationMark.length + 2 < text.length + 1 := by
    have hencoded := JSON.length_encodeString_le text
    simp only [TextMessage.size_eq] at hsize
    omega
  have hleast : ((TextMessage.mk (ascii "user") .message text).clip
      (truncationMark.length + 2)).size ≤ taskBudget := by
    have hclip := length_clip_le text (Nat.le_add_right truncationMark.length 2)
    have hencoded := JSON.length_encodeString_le (clip text (truncationMark.length + 2))
    rw [TextMessage.size_eq]
    simp only [TextMessage.clip]
    omega
  apply Option.isSome_iff_exists.mp
  rw [fitTextMessage, Option.isSome_map]
  exact Bisect.search_isSome _ hlong (decide_eq_true hleast)

theorem fitTask_le {task : Text} {truncated : Bool} (h : fitTask message = some (task, truncated)) :
    (JSON.encodeString task).length ≤ taskBudget := by
  unfold fitTask at h
  split at h
  · obtain ⟨fitted, hfit, heq⟩ := Option.map_eq_some_iff.mp h
    cases heq
    have hsize := fitTextMessage_size_le hfit
    rw [TextMessage.size_eq] at hsize
    omega
  · rename_i hsize
    cases h
    rw [TextMessage.size_eq] at hsize
    omega

/-! ## The recent context -/

structure Newest.Within (newest : Newest) (budget : Nat) : Prop where
  count : newest.count = newest.selected.length
  used : newest.used =
    (newest.selected.map fun item => item.2.size).sum + (newest.selected.length - 1) + 2
  budget : newest.used ≤ budget

variable {newest : Newest}

theorem Newest.Within.select {index separator : Nat} (h : newest.Within budget)
    (hseparator : separator = if newest.count > 0 then 1 else 0)
    (hsize : message.size ≤ budget - newest.used - separator) :
    (newest.select index separator message).Within budget where
  count := by simp [Newest.select, h.count]
  used := by
    have hused := h.used
    have hcount := h.count
    simp only [Newest.select, map_cons, sum_cons, length_cons]
    split at hseparator <;> omega
  budget := by
    have hpos := message.size_eq
    change newest.used + (separator + message.size) ≤ budget
    omega

theorem Newest.Within.offer (h : newest.Within budget) (item : Nat × TextMessage) :
    (newest.offer budget item).Within budget := by
  unfold Newest.offer
  generalize hseparator : (if newest.count > 0 then 1 else 0) = separator
  simp only
  split
  · exact ⟨h.count, h.used, h.budget⟩
  split
  · split
    · exact ⟨h.count, h.used, h.budget⟩
    · rename_i message hfit
      obtain ⟨hcount, hused, hbudget⟩ := h.select hseparator.symm (fitTextMessage_size_le hfit)
      exact ⟨hcount, hused, hbudget⟩
  · rename_i hsize
    exact h.select hseparator.symm (Nat.le_of_not_lt hsize)

theorem compactNewest_within (messages : List (Nat × TextMessage)) (hbudget : 2 ≤ budget) :
    (compactNewest messages budget).Within budget := by
  have hrun : ∀ (items : List (Nat × TextMessage)) (newest : Newest), newest.Within budget →
      (items.foldl (.offer budget) newest).Within budget := by
    intro items
    induction items with
    | nil => exact fun _ h => h
    | cons item items ih => exact fun newest h => ih _ (h.offer item)
  exact hrun _ _ ⟨rfl, rfl, hbudget⟩

theorem sum_map_filterMap {α β : Type} (f : α → Option β) (weight : β → Nat) (l : List α) :
    ((l.filterMap f).map weight).sum = (l.map fun a => ((f a).map weight).getD 0).sum := by
  induction l with
  | nil => rfl
  | cons a l ih => cases h : f a with
    | none => simp [h, ih]
    | some b => simp [h, ih]

theorem sum_lookup_le {α : Type} (weight : α → Nat) (entries : List (Nat × α)) {indices : List Nat}
    (hnodup : indices.Nodup) :
    (indices.map fun i => ((entries.lookup i).map weight).getD 0).sum ≤
      (entries.map fun entry => weight entry.2).sum := by
  induction entries generalizing indices with
  | nil => simp
  | cons entry entries ih =>
    -- One of the places may be that of the first entry; the others are looked up behind it.
    have hrest := ih (hnodup.erase entry.1)
    have hskip : ∀ i ∈ indices.erase entry.1,
        (((entry :: entries).lookup i).map weight).getD 0 =
          ((entries.lookup i).map weight).getD 0 := by
      intro i hi
      have hne : i ≠ entry.1 := ((List.Nodup.mem_erase_iff hnodup).mp hi).1
      rw [lookup_cons, beq_eq_false_iff_ne.mpr hne]
    rw [← map_congr_left hskip] at hrest
    rw [map_cons, sum_cons]
    by_cases hmem : entry.1 ∈ indices
    · rw [((perm_cons_erase hmem).map _).sum_eq, map_cons, lookup_cons, beq_self_eq_true]
      exact Nat.add_le_add_left hrest _
    · rw [erase_of_not_mem hmem] at hrest
      omega

theorem length_encodeMessages_le :
    (encodeMessages messages).length ≤ (messages.map fun message => message.size + 1).sum + 2 := by
  rw [length_encodeMessages, sum_map_add, map_const', sum_replicate]
  simp only [Nat.nsmul_eq_mul]
  omega

theorem Newest.Within.sum_lt (h : newest.Within budget) :
    (newest.selected.map fun item => item.2.size + 1).sum + 1 ≤ budget := by
  have hused := h.used
  have hbudget := h.budget
  rw [sum_map_add, map_const', sum_replicate]
  simp only [Nat.nsmul_eq_mul]
  omega

theorem compactRecentContext_le :
    (encodeMessages (compactRecentContext messages).1).length ≤
      maxRecentConversationBytes + maxRecentToolBytes := by
  set indexed := messages.zipIdx.map fun item => (item.2, item.1) with hindexed
  set tools := compactNewest (indexed.filter fun item => item.2.kind = .toolResult)
    maxRecentToolBytes with htools
  set regular := compactNewest (indexed.filter fun item => item.2.kind ≠ .toolResult)
    maxRecentConversationBytes with hregular
  have htoolsWithin : tools.Within maxRecentToolBytes := compactNewest_within _ (by decide)
  have hregularWithin : regular.Within maxRecentConversationBytes :=
    compactNewest_within _ (by decide)
  have hsum : ((compactRecentContext messages).1.map fun message => message.size + 1).sum ≤
      (tools.selected.map fun item => item.2.size + 1).sum +
        (regular.selected.map fun item => item.2.size + 1).sum := by
    calc ((compactRecentContext messages).1.map fun message => message.size + 1).sum
        = ((List.range messages.length).map fun index =>
            (((tools.selected.lookup index).or (regular.selected.lookup index)).map
              fun message => message.size + 1).getD 0).sum := sum_map_filterMap _ _ _
      _ ≤ ((List.range messages.length).map fun index =>
            ((tools.selected.lookup index).map fun message => message.size + 1).getD 0 +
              ((regular.selected.lookup index).map fun message =>
                message.size + 1).getD 0).sum := by
          apply sum_le_sum
          intro index _
          cases tools.selected.lookup index with
          | none => simp
          | some message => simp
      _ ≤ _ := by
          rw [sum_map_add]
          exact Nat.add_le_add (sum_lookup_le _ _ nodup_range) (sum_lookup_le _ _ nodup_range)
  have hlength := length_encodeMessages_le (compactRecentContext messages).1
  have htoolsLt := htoolsWithin.sum_lt
  have hregularLt := hregularWithin.sum_lt
  omega

/-! ## The instructions -/

theorem fitShare_size_le {share : Nat → Nat} {item : TextMessage × Nat}
    (h : fitShare share item = some message) : message.size ≤ share item.2 := by
  unfold fitShare at h
  split at h
  · cases h
    assumption
  · exact fitTextMessage_size_le h

theorem sum_fitShare_le (share : Nat → Nat) (messages : List TextMessage) :
    ((messages.zipIdx.filterMap (fitShare share)).map TextMessage.size).sum ≤
      ((List.range messages.length).map share).sum := by
  rw [sum_map_filterMap, range_eq_range', ← zipIdx_map_snd, map_map]
  apply sum_le_sum
  intro item _
  cases h : fitShare share item with
  | none => exact Nat.zero_le _
  | some message => exact fitShare_size_le h

theorem compactFair_le (hbudget : 2 ≤ budget) :
    (encodeMessages (compactFair messages budget).1).length ≤ budget := by
  unfold compactFair
  split
  · assumption
  split
  · exact hbudget
  · have hsizes := sum_fitShare_le (allocations messages budget) messages
    have hshares : ((List.range messages.length).map (allocations messages budget)).sum ≤
        budget - 2 - (messages.length - 1) := FairShare.sum_allocate_le _ _ _
    have hcount := length_filterMap_le (fitShare (allocations messages budget)) messages.zipIdx
    rw [length_zipIdx] at hcount
    rw [length_encodeMessages]
    dsimp only
    omega

end EchoJoyGateway.AutoModel
