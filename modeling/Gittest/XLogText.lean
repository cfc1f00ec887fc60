import Gittest.Proof.XRingCalls
import Gittest.Proof.XRingCreate
import Gittest.XLog

/-!
# What a line of the log becomes

The two conversions of `x_log_write` leave in `sbuf` what one conversion of the whole line would, cut
off where the buffer ends. The length that goes with it is that of the line, not of what was stored
of it: a line that fills the buffer to its last byte is queued with the terminator, and for a longer
one the ring reads past the buffer.
-/

namespace Gittest

/-! ### Conversions one after the other -/

/-- The buffer has `size` bytes and holds the text, cut off to leave room for the terminator. -/
structure Buffer.Prints (buf : Buffer) (size : Nat) (text : Text) : Prop where
  length : buf.length = size
  shown : printed size text <+: buf

section Conversions

variable {buf : Buffer} {size : Nat} {text : Text}

theorem printed_of_pos (hsize : 0 < size) (text : Text) :
    printed size text = (text.take (size - 1)).map some ++ [some 0] := by
  rw [printed, if_neg (by omega), List.map_append]
  rfl

theorem printed_length (hsize : 0 < size) (text : Text) :
    (printed size text).length = min (size - 1) text.length + 1 := by
  rw [printed_of_pos hsize, List.length_append, List.length_map, List.length_take]
  rfl

/-- A text that is shorter than the buffer is there to its last character. -/
theorem Buffer.Prints.take (hprints : buf.Prints size text) (hroom : text.length < size) :
    buf.take text.length = text.map some := by
  have hshown := hprints.shown
  rw [printed_of_pos (by omega), List.take_of_length_le (by omega)] at hshown
  have hprefix := (List.prefix_append _ _).trans hshown
  rw [List.prefix_iff_eq_take.mp hprefix, List.length_map]

theorem prints_blank (hsize : 0 < size) : Buffer.Prints (List.replicate size (some 0)) size [] := by
  constructor
  case length => exact List.length_replicate
  case shown =>
    rw [printed_of_pos hsize, List.take_nil, List.map_nil, List.nil_append,
      List.prefix_replicate_iff]
    exact ⟨hsize, rfl⟩

/-- A conversion that goes on where an earlier text ended leaves what one of both texts would. -/
theorem snprintf_prints (hprints : buf.Prints size text) (hroom : text.length < size) {more : Text}
    (hint : more.length ≤ intMax) :
    ∃ buf', snprintf buf text.length (size - text.length) more = .ok (more.length, buf') ∧
      buf'.Prints size (text ++ more) := by
  have hlength := hprints.length
  let bytes := printed (size - text.length) more
  have hbytes : bytes.length = min (size - text.length - 1) more.length + 1 :=
    printed_length (by omega) more
  have hfits : bytes.length ≤ (buf.drop text.length).length := by
    rw [List.length_drop]
    omega
  obtain ⟨rest, hcopy, hshown⟩ : ∃ rest, memcpy (buf.drop text.length) bytes bytes.length
      = .ok rest ∧ bytes <+: rest := by
    refine ⟨_, memcpy_ok (Int.natCast_nonneg _) (Int.ofNat_le.mpr hfits) le_rfl, ?_⟩
    rw [Int.toNat_natCast, List.take_length]
    exact List.prefix_append _ _
  refine ⟨buf.take text.length ++ rest, ?_, ?_⟩
  · unfold snprintf
    rw [if_neg (by omega), if_neg (by omega), Int.toNat_natCast]
    change (memcpy (buf.drop text.length) bytes bytes.length >>= _) = _
    rw [hcopy]
    rfl
  · constructor
    case length =>
      rw [List.length_append, memcpy_length hcopy, List.length_take, List.length_drop]
      omega
    case shown =>
      have hwhole : printed size (text ++ more) = text.map some ++ bytes := by
        change _ = _ ++ printed (size - text.length) more
        rw [printed_of_pos (by omega), printed_of_pos (by omega), List.take_append,
          List.take_of_length_le (show text.length ≤ size - 1 by omega), List.map_append,
          List.append_assoc, Nat.sub_right_comm]
      rw [hprints.take hroom, hwhole]
      exact (List.prefix_append_right_inj _).mpr hshown

end Conversions

/-! ### The line in the buffer -/

section Format

variable {now : Tm} {stamp : Text} {level : Int} {name : Text}

theorem sizeT_room {ret : Nat} (hret : ret ≤ logBuffLen) :
    sizeT ((logBuffLen : Int) - ret) = logBuffLen - ret := by
  unfold sizeT
  unfold logBuffLen at hret ⊢
  omega

theorem xLogFormat_eq (hstamp : timestamp now = .ok stamp) (hname : logLevelName level = .ok name)
    (hshort : (logPrefix stamp name).length < logBuffLen) (message : Text) :
    ∃ sbuf : Buffer, sbuf.Prints logBuffLen (logPrefix stamp name) ∧
      xLogFormat now level message
        = (do
            let (more, sbuf) ← snprintf sbuf (logPrefix stamp name).length
              (logBuffLen - (logPrefix stamp name).length) message
            let ret ← addInt (logPrefix stamp name).length more
            return (sbuf, ret)) := by
  have hblank : Buffer.Prints (List.replicate logBuffLen (some 0)) logBuffLen [] :=
    prints_blank (by decide)
  have hint : ((logPrefix stamp name).length : Int) ≤ intMax := by
    unfold logBuffLen at hshort
    unfold intMax
    omega
  obtain ⟨sbuf, hfirst, hprints⟩ := snprintf_prints hblank (by decide) hint
  refine ⟨sbuf, hprints, ?_⟩
  unfold xLogFormat
  rw [hstamp, hname]
  change (snprintf _ _ _ _ >>= _) = _
  rw [show snprintf _ 0 logBuffLen _ = _ from hfirst]
  change (snprintf _ _ (sizeT _) _ >>= _) = _
  rw [sizeT_room hshort.le]

theorem xLogFormat_ok (hstamp : timestamp now = .ok stamp) (hname : logLevelName level = .ok name)
    (hshort : (logPrefix stamp name).length < logBuffLen) {message : Text}
    (hint : (logPrefix stamp name ++ message).length ≤ intMax) :
    ∃ sbuf : Buffer, sbuf.Prints logBuffLen (logPrefix stamp name ++ message) ∧
      xLogFormat now level message
        = .ok (sbuf, ((logPrefix stamp name ++ message).length : Int)) := by
  obtain ⟨sbuf, hprints, hformat⟩ := xLogFormat_eq hstamp hname hshort message
  rw [List.length_append] at hint ⊢
  have hmessage : (message.length : Int) ≤ intMax := by omega
  obtain ⟨sbuf', hsecond, hprints'⟩ := snprintf_prints hprints hshort hmessage
  refine ⟨sbuf', hprints', ?_⟩
  rw [hformat, hsecond]
  change (addInt _ _ >>= _) = _
  rw [addInt, if_pos ⟨by unfold intMin; omega, by omega⟩]
  rfl

/-- A line whose length is no `int`. -/
theorem xLogFormat_overflow (hstamp : timestamp now = .ok stamp)
    (hname : logLevelName level = .ok name)
    (hshort : (logPrefix stamp name).length < logBuffLen) {message : Text}
    (hint : ¬(logPrefix stamp name ++ message).length ≤ intMax) :
    xLogFormat now level message = .error .signedOverflow := by
  obtain ⟨sbuf, hprints, hformat⟩ := xLogFormat_eq hstamp hname hshort message
  rw [List.length_append] at hint
  rw [hformat]
  by_cases hmessage : message.length ≤ intMax
  · obtain ⟨sbuf', hsecond, _⟩ := snprintf_prints hprints hshort hmessage
    rw [hsecond]
    change (addInt _ _ >>= _) = _
    rw [addInt, if_neg (by omega)]
    rfl
  · have hlength := hprints.length
    have hsecond : snprintf sbuf (logPrefix stamp name).length
        (logBuffLen - (logPrefix stamp name).length) message = .error .signedOverflow := by
      rw [snprintf, if_neg (by omega), if_pos (by omega)]
    rw [hsecond]
    rfl

end Format

/-! ### The line in the ring -/

/-- The tries that find the ring full change nothing. -/
theorem xLogEnqueue_full {full : List XRing}
    (hfull : ∀ r ∈ full, (r.prodHead + 1) &&& r.mask = r.consTail) (patience : Nat) (sbuf : Buffer)
    (ret : Int) (tries : List XRing) :
    xLogEnqueue patience sbuf ret (full ++ tries) = xLogEnqueue patience sbuf ret tries := by
  induction full with
  | nil => rfl
  | cons r full ih =>
      have hrest := ih fun r' hmem => hfull r' (List.mem_cons_of_mem r hmem)
      rw [List.cons_append, xLogEnqueue,
        xRingMpEnqueue_nospace (hfull r List.mem_cons_self) patience sbuf ret]
      exact hrest

section Write

variable {size published released : Nat} {q : List Buffer} {found : XRing}

theorem xLogEnqueue_ok (hstores : found.Stores size published released q)
    (hroom : q.length + 1 < size) {sbuf : Buffer} {ret : Nat} (hret : ret ≤ sbuf.length)
    (patience : Nat) (rest : List XRing) :
    ∃ r, xLogEnqueue patience sbuf ret (found :: rest) = .ok r ∧
      r.Stores size (published + 1) released (q ++ [sbuf.take ret]) := by
  obtain ⟨r, henqueue, hstores'⟩ :=
    hstores.mpEnqueue hroom (Int.natCast_nonneg ret) (Int.ofNat_le.mpr hret) patience
  refine ⟨r, ?_, hstores'⟩
  rw [xLogEnqueue, henqueue]
  rfl

theorem xLogEnqueue_overrun (hstores : found.Stores size published released q)
    (hroom : q.length + 1 < size) {sbuf : Buffer} {ret : Nat} (hret : sbuf.length < ret)
    (patience : Nat) (rest : List XRing) :
    xLogEnqueue patience sbuf ret (found :: rest) = .error .overrun := by
  rw [xLogEnqueue, hstores.mpEnqueue_overrun hroom (Int.ofNat_lt.mpr hret) patience]
  rfl

/-- A call that is let through, from the first try that finds room. -/
theorem xLogWrite_found {xlog : XLog} {level : Int}
    (hgate : unsignedInt level ≤ unsignedInt xlog.level) {later full rest : List XRing}
    (htries : xlog.logRing :: later = full ++ found :: rest)
    (hfull : ∀ r ∈ full, (r.prodHead + 1) &&& r.mask = r.consTail) (patience : Nat) (now : Tm)
    (message : Text) :
    xLogWrite patience xlog later now level message
      = (do
          let (sbuf, ret) ← xLogFormat now level message
          let r ← xLogEnqueue patience sbuf ret (found :: rest)
          return (0, { xlog with logRing := r })) := by
  rw [xLogWrite, if_neg (by omega), htries]
  simp only [xLogEnqueue_full hfull]

/-- A level that is let through but has no string, whose place in the array is read all the same. -/
theorem xLogWrite_unnamed {xlog : XLog} {level : Int}
    (hgate : unsignedInt level ≤ unsignedInt xlog.level)
    (hlevel : level < 0 ∨ logLevelStr.length ≤ level) {now : Tm} {stamp : Text}
    (hstamp : timestamp now = .ok stamp) (patience : Nat) (later : List XRing) (message : Text) :
    xLogWrite patience xlog later now level message = .error .outOfBounds := by
  have hname : logLevelName level = .error .outOfBounds := by
    unfold logLevelName
    by_cases hneg : level < 0
    · rw [if_pos hneg]
    · rw [if_neg hneg, List.getElem?_eq_none (by omega)]
  rw [xLogWrite, if_neg (by omega), xLogFormat, hstamp, hname]
  rfl

/-- A line that is longer than the buffer, if its length is an `int`. -/
theorem xLogWrite_overrun {xlog : XLog} {level : Int}
    (hgate : unsignedInt level ≤ unsignedInt xlog.level) {later full rest : List XRing}
    (htries : xlog.logRing :: later = full ++ found :: rest)
    (hfull : ∀ r ∈ full, (r.prodHead + 1) &&& r.mask = r.consTail)
    (hstores : found.Stores size published released q) (hroom : q.length + 1 < size) {now : Tm}
    {stamp name message : Text} (hstamp : timestamp now = .ok stamp)
    (hname : logLevelName level = .ok name) (hshort : (logPrefix stamp name).length < logBuffLen)
    (hint : (logPrefix stamp name ++ message).length ≤ intMax)
    (hlong : logBuffLen < (logPrefix stamp name ++ message).length) (patience : Nat) :
    xLogWrite patience xlog later now level message = .error .overrun := by
  obtain ⟨sbuf, hprints, hformat⟩ := xLogFormat_ok hstamp hname hshort hint
  have hpast := xLogEnqueue_overrun hstores hroom (hprints.length.trans_lt hlong) patience rest
  rw [xLogWrite_found hgate htries hfull, hformat]
  change (xLogEnqueue _ _ _ _ >>= _) = _
  rw [hpast]
  rfl

/-- A line that is not longer than the buffer: the ring gets the front of the buffer, as long as the
line is. -/
theorem xLogWrite_stores {xlog : XLog} {level : Int}
    (hgate : unsignedInt level ≤ unsignedInt xlog.level) {later full rest : List XRing}
    (htries : xlog.logRing :: later = full ++ found :: rest)
    (hfull : ∀ r ∈ full, (r.prodHead + 1) &&& r.mask = r.consTail)
    (hstores : found.Stores size published released q) (hroom : q.length + 1 < size) {now : Tm}
    {stamp name message : Text} (hstamp : timestamp now = .ok stamp)
    (hname : logLevelName level = .ok name) (hshort : (logPrefix stamp name).length < logBuffLen)
    (hle : (logPrefix stamp name ++ message).length ≤ logBuffLen) (patience : Nat) :
    ∃ (sbuf : Buffer) (r : XRing), sbuf.Prints logBuffLen (logPrefix stamp name ++ message) ∧
      xLogFormat now level message
        = .ok (sbuf, ((logPrefix stamp name ++ message).length : Int)) ∧
      xLogWrite patience xlog later now level message = .ok (0, { xlog with logRing := r }) ∧
      r.Stores size (published + 1) released
        (q ++ [sbuf.take (logPrefix stamp name ++ message).length]) := by
  have hint : ((logPrefix stamp name ++ message).length : Int) ≤ intMax := by
    unfold logBuffLen at hle
    unfold intMax
    omega
  obtain ⟨sbuf, hprints, hformat⟩ := xLogFormat_ok hstamp hname hshort hint
  obtain ⟨r, henqueue, hqueued⟩ :=
    xLogEnqueue_ok hstores hroom (hle.trans hprints.length.ge) patience rest
  refine ⟨sbuf, r, hprints, hformat, ?_, hqueued⟩
  rw [xLogWrite_found hgate htries hfull, hformat]
  change (xLogEnqueue _ _ _ _ >>= _) = _
  rw [henqueue]
  rfl

/-- **The log queues its lines as long as they fit.** A call that is let through and whose ring takes
its line, possibly after some tries, queues the text that the buffer has room for, with a length
within the buffer, if and only if the level is one of those with a name and the whole line is shorter
than the buffer. -/
theorem xLogWrite_queues_line (patience : Nat) (xlog : XLog) (later : List XRing)
    {full rest : List XRing} (htries : xlog.logRing :: later = full ++ found :: rest)
    (hfull : ∀ r ∈ full, (r.prodHead + 1) &&& r.mask = r.consTail)
    (hstores : found.Stores size published released q) (hroom : q.length + 1 < size) {now : Tm}
    {stamp : Text} (hstamp : timestamp now = .ok stamp) {level : Int}
    (hgate : unsignedInt level ≤ unsignedInt xlog.level)
    (hshort : ∀ name, logLevelName level = .ok name → (logPrefix stamp name).length < logBuffLen)
    (message : Text) :
    (∃ name, logLevelName level = .ok name ∧ ∃ sbuf ret r,
      xLogFormat now level message = .ok (sbuf, ret) ∧ ret ≤ logBuffLen ∧
      xLogWrite patience xlog later now level message = .ok (0, { xlog with logRing := r }) ∧
      r.Stores size (published + 1) released
        (q ++ [((logPrefix stamp name ++ message).take
          (min ((logPrefix stamp name).length + message.length) (logBuffLen - 1))).map some])) ↔
    ∃ name, logLevelName level = .ok name ∧
      (logPrefix stamp name).length + message.length < logBuffLen := by
  constructor
  · rintro ⟨name, hname, sbuf, ret, r, hformat, hle, hrun, hqueued⟩
    refine ⟨name, hname, ?_⟩
    by_contra hlong
    -- The length handed over is the line's, so it can only be the buffer's own.
    have hint : ((logPrefix stamp name ++ message).length : Int) ≤ intMax := by
      by_contra hint
      rw [xLogFormat_overflow hstamp hname (hshort name hname) hint] at hformat
      cases hformat
    obtain ⟨_, _, hformat'⟩ := xLogFormat_ok hstamp hname (hshort name hname) hint
    rw [hformat'] at hformat
    cases hformat
    obtain ⟨sbuf, r', hprints, _, hrun', hqueued'⟩ := xLogWrite_stores hgate htries hfull hstores
      hroom hstamp hname (hshort name hname) (Int.ofNat_le.mp hle) patience
    rw [hrun'] at hrun
    cases hrun
    have hsame := List.append_cancel_left (hqueued.unique hqueued')
    have hlength := congrArg List.length (List.singleton_inj.mp hsame)
    rw [List.length_map, List.length_take, List.length_take, hprints.length,
      List.length_append] at hlength
    unfold logBuffLen at hlength hlong
    omega
  · rintro ⟨name, hname, hlt⟩
    rw [← List.length_append] at hlt
    obtain ⟨sbuf, r, hprints, hformat, hrun, hqueued⟩ := xLogWrite_stores hgate htries hfull hstores
      hroom hstamp hname (hshort name hname) hlt.le patience
    refine ⟨name, hname, sbuf, _, r, hformat, Int.ofNat_le.mpr hlt.le, hrun, ?_⟩
    rw [hprints.take hlt] at hqueued
    rw [← List.length_append, List.take_of_length_le (by omega)]
    exact hqueued

end Write

/-- Half past two in the afternoon of the first of May 2024. -/
def afternoon : Tm := ⟨0, 30, 14, 1, 4, 124⟩

def fullRing : XRing := { ringOfTwo with prodHead := 1, prodTail := 1 }

theorem timestamp_afternoon : timestamp afternoon = .ok (ascii "2024-05-01 14:30:00") := by
  decide +kernel

theorem logLevelName_info : logLevelName 3 = .ok (ascii "Info") := by decide +kernel

/-- A line goes into a ring of size 2 at the second try, the first having found it full. -/
theorem xLogWrite_queues_line_two :
    ∃ r, xLogWrite 0 ⟨fullRing, 5⟩ [ringOfTwo] afternoon 3 (ascii "hi") = .ok (0, ⟨r, 5⟩) ∧
      r.Stores 2 1 0 [(ascii "2024-05-01 14:30:00: Info hi").map some] := by
  have hstores : ringOfTwo.Stores 2 0 0 [] :=
    stores_of_made xRingCreate_two (by decide) (by decide)
  have hfull : ∀ r ∈ [fullRing], (r.prodHead + 1) &&& r.mask = r.consTail := by decide
  have hshort : ∀ name, logLevelName 3 = .ok name →
      (logPrefix (ascii "2024-05-01 14:30:00") name).length < logBuffLen := by
    intro name hname'
    cases logLevelName_info.symm.trans hname'
    decide +kernel
  have hline := xLogWrite_queues_line 0 ⟨fullRing, 5⟩ [ringOfTwo] rfl hfull hstores (by decide)
    timestamp_afternoon (by decide) hshort (ascii "hi")
  obtain ⟨name, hname', _, _, r, _, _, hrun, hqueued⟩ :=
    hline.mpr ⟨_, logLevelName_info, by decide +kernel⟩
  cases logLevelName_info.symm.trans hname'
  have hbytes : ((logPrefix (ascii "2024-05-01 14:30:00") (ascii "Info") ++ ascii "hi").take
      (min ((logPrefix (ascii "2024-05-01 14:30:00") (ascii "Info")).length + (ascii "hi").length)
        (logBuffLen - 1))).map some = (ascii "2024-05-01 14:30:00: Info hi").map some := by
    decide +kernel
  rw [hbytes] at hqueued
  exact ⟨r, hrun, hqueued⟩

/-- With 26 characters in front, 998 more fill the buffer, and its terminator is queued for the last
of them. With 1024 more the ring is told of 1050 bytes and reads past the buffer. -/
theorem xLogWrite_overreads :
    timestamp afternoon = .ok (ascii "2024-05-01 14:30:00") ∧ logLevelName 3 = .ok (ascii "Info") ∧
      (logPrefix (ascii "2024-05-01 14:30:00") (ascii "Info")).length = 26 ∧
      (xLogWrite 0 ⟨ringOfTwo, 5⟩ [] afternoon 3 (List.replicate 998 65)).map
          (fun p => p.2.logRing.ring[0]?.map fun e => (e.contentLength, e.data.getLast?))
        = .ok (some (1024, some (some 0))) ∧
      (xLogFormat afternoon 3 (List.replicate 1024 65)).map (·.2) = .ok 1050 ∧
      xLogWrite 0 ⟨ringOfTwo, 5⟩ [] afternoon 3 (List.replicate 1024 65) = .error .overrun := by
  refine ⟨timestamp_afternoon, logLevelName_info, ?_, ?_, ?_, ?_⟩
  all_goals decide +kernel

end Gittest
