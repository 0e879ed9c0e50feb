import Myftpd.Lib.Runs
import Myftpd.Lib.History
import Myftpd.Lib.Slots
import Myftpd.Lib.DList
import Myftpd.Lib.Chain
import Myftpd.Lib.Quoted
import Myftpd.Lib.CMem
import Myftpd.Lib.Matching
import Myftpd.Lib.RecordLock
import Myftpd.Lib.ByteFile
import Myftpd.Basic
import Myftpd.Str
import Myftpd.Split
import Myftpd.Numbers
import Myftpd.Sysutil
import Myftpd.Parse
import Myftpd.Session
import Myftpd.Server
import Myftpd.Proto
import Myftpd.Transfer
import Myftpd.Epoll
import Myftpd.Stream
import Myftpd.Output
import Myftpd.Faults
import Myftpd.Ledger
import Myftpd.Handled
import Myftpd.Course
import Myftpd.Rounds
import Myftpd.Refine
import Myftpd.Lifetime
import Myftpd.Watch
import Myftpd.Isolation
import Myftpd.Batch
import Myftpd.Timeout
import Myftpd.Registry
import Myftpd.Paths
import Myftpd.Books
import Myftpd.Replies
import Myftpd.Handlers
import Myftpd.Stages
import Myftpd.Records
import Myftpd.Worked
import Myftpd.Auth
import Myftpd.Fields
import Myftpd.Login
import Myftpd.Tables
import Myftpd.Effect
import Myftpd.Answers
import Myftpd.Orders
import Myftpd.Live
import Myftpd.Accounts
import Myftpd.Clock
import Myftpd.Eviction
import Myftpd.Sequence
import Myftpd.Idle
import Myftpd.Transfers
import Myftpd.Passive
import Myftpd.Descs
import Myftpd.Roles
import Myftpd.Conserve
import Myftpd.Abort
import Myftpd.Places
import Myftpd.Requests
import Myftpd.Directory
import Myftpd.Locks
import Myftpd.Fits
import Myftpd.Restart
import Myftpd.Rename
import Myftpd.Folder
import Myftpd.Turns
import Myftpd.Tape
import Myftpd.Cleanup
import Myftpd.Discipline
import Myftpd.Download
import Myftpd.SendLoop
import Myftpd.Upload
import Myftpd.Hash
import Myftpd.Map
import Myftpd.IpCount
import Myftpd.Perms
import Myftpd.Pwd
import Myftpd.SiteMode
import Myftpd.Wakeup
import Myftpd.Overload
import Myftpd.Refused
import Myftpd.Listing
import Myftpd.Feed
import Myftpd.Readline
import Myftpd.AnyBytes
import Myftpd.Trim
import Myftpd.Lib.LastWins
import Myftpd.Parseconf
import Myftpd.Lib.Monitor
import Myftpd.Lib.ReplyLines
import Myftpd.Speech
import Myftpd.Conversation
import Myftpd.Client
import Myftpd.Resume
import Myftpd.Lib.Rank
import Myftpd.Return
import Myftpd.Dump
import Myftpd.Quota
import Myftpd.Stat
