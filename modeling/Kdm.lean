import Kdm.Lib.Best
import Kdm.Lib.Glob
import Kdm.Lib.Paths
import Kdm.Lib.Block
import Kdm.Getter.Precedence
import Kdm.Getter.Lists
import Kdm.Getter.Names
import Kdm.Getter.Header
import Kdm.Xdmcp.Pattern
import Kdm.Xaccess.InPlace
import Kdm.Xaccess.Tokens
import Kdm.Xaccess.Reload
import Kdm.Xaccess.Expansion
import Kdm.Lib.Runs
import Kdm.Lib.Wire
import Kdm.Lib.Keyed
import Kdm.Lib.Abort
import Kdm.Backend.Types
import Kdm.Backend.State
import Kdm.Backend.Console
import Kdm.Backend.Server
import Kdm.Backend.Session
import Kdm.Backend.Config
import Kdm.Backend.Reap
import Kdm.Backend.Logins
import Kdm.Backend.Text
import Kdm.Backend.Talk
import Kdm.Backend.Ctrl
import Kdm.Backend.MainLoop
import Kdm.Abstract.Model
import Kdm.Abstract.Orderly
import Kdm.Abstract.Settings
import Kdm.Abstract.Slot
import Kdm.Abstract.Passive
import Kdm.Abstract.Condemned
import Kdm.Abstract.Descriptors
import Kdm.Refine.Abs
import Kdm.Refine.Stop
import Kdm.Refine.Session
import Kdm.Refine.Config
import Kdm.Refine.Reap
import Kdm.Refine.Talk
import Kdm.Refine.Ctrl
import Kdm.Refine.Step
import Kdm.Refine.Reach
import Kdm.Safety.StartSlot
import Kdm.Safety.Passive
import Kdm.Safety.Removal
import Kdm.Safety.Mask
import Kdm.Safety.Reaping
import Kdm.Safety.Configured
import Kdm.Safety.Authority
import Kdm.Safety.Leaving
import Kdm.Safety.Schedule
import Kdm.Xdmcp.Address
import Kdm.Xdmcp.Access
import Kdm.Xdmcp.Choice
import Kdm.Xdmcp.Auth
import Kdm.Xdmcp.Daemon
import Kdm.Xdmcp.Effects
import Kdm.Xdmcp.Tables
import Kdm.Xdmcp.Sessions
import Kdm.Xdmcp.Admission
import Kdm.Xdmcp.Alive
import Kdm.Xdmcp.XdmAuth
import Kdm.Xdmcp.Agreement
import Kdm.Xdmcp.Chooser
import Kdm.Lib.Codec
import Kdm.Lib.Lines
import Kdm.Ipc.Codec
import Kdm.Ipc.Faithful
import Kdm.Ipc.Block
import Kdm.Getter.Values
import Kdm.Getter.Load
import Kdm.Getter.Transfer
import Kdm.Xaccess.Words
import Kdm.Xaccess.Tables
import Kdm.Xaccess.Lists
import Kdm.Xaccess.Scan
import Kdm.Xaccess.Transfer
import Kdm.Xaccess.Deny
import Kdm.Control.Channel
import Kdm.Control.Loop
import Kdm.Control.Replies
import Kdm.Control.Buffers
import Kdm.Safety.Shutdown
import Kdm.Safety.Rejected
import Kdm.Safety.Reopening
import Kdm.Safety.Grace
import Kdm.Ini.Entry
import Kdm.Ini.Store
import Kdm.Ini.Merge
import Kdm.Ini.Memory
import Kdm.Ini.Dmrc
import Kdm.Ini.Buffers
import Kdm.Xauthority.File
import Kdm.Xauthority.Law
import Kdm.Lib.Files
import Kdm.Helper.Actions
import Kdm.Helper.Confined
import Kdm.Helper.Disclosed
import Kdm.Boot.Manager
import Kdm.Boot.Menu
import Kdm.Boot.Grub2
import Kdm.Boot.Contract
import Kdm.Boot.Commit
import Kdm.Getter.Strings
import Kdm.Getter.Updates
import Kdm.Xdmcp.Pending
import Kdm.Xdmcp.Hosts
import Kdm.Xdmcp.Targets
import Kdm.Xdmcp.Listen
import Kdm.Xdmcp.Datagram
import Kdm.Xdmcp.Packets
import Kdm.Args.Join
import Kdm.Strings.Macros
import Kdm.Strings.Replace
import Kdm.Background.Wallpapers
import Kdm.Verify.Passwordless
import Kdm.Helper.Install
import Kdm.Lib.Steps
import Kdm.Background.Tiling
import Kdm.Background.Placement
import Kdm.Background.Render
import Kdm.Background.Fingerprint
import Kdm.Background.Cache
import Kdm.Themer.Layout
import Kdm.Genkdmconf.CopyFile
import Kdm.Genkdmconf.Copies
import Kdm.Kcm.Users
import Kdm.Kcm.Collected
import Kdm.Kcm.Ranges
import Kdm.Lib.Dialogue
import Kdm.Login.Session
import Kdm.Login.Protocol
import Kdm.Login.Conversation
import Kdm.Login.Greeter
import Kdm.Login.Agreement
import Kdm.Printf.Format
import Kdm.Printf.Quotes
import Kdm.Printf.Logger
import Kdm.Printf.Reply
import Kdm.Lib.Escape
import Kdm.Client.Environ
import Kdm.Client.Lifetime
